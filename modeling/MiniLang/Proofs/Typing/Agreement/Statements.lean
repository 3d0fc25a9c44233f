import MiniLang.Proofs.Typing.Agreement.Expressions
import MiniLang.Proofs.Typing.Statements

/-!
# Typing statements agrees with the type system

In a program whose names are resolved, the checker finds no error in statements exactly if they are
well typed (`CleanStep.all`). Resolver, checker and rules go through the statements together: once a
statement is known to be fine in both ways, all three know the same about the names behind it
(`CleanStep.first`), as the rules determine the types of the variables that it declares.
-/

set_option autoImplicit false

namespace MiniLang.Semantics

open Typing hiding Context
open TypeSystem (Environment IsValue Admits)

/-! ## Rules for single statements -/

theorem clean_mismatch_iff {expected found : Ty} {span : Span} (sane : found.isError = false) :
    Diagnostics.hasErrors (reported (mismatch expected found) span) = false ↔
      found = expected := by
  refine ⟨eq_of_mismatch sane, ?_⟩
  rintro rfl
  rw [mismatch_self]
  rfl

/-- The complaints about a declaration are about first values that it does not admit. -/
theorem clean_declarationRule_iff {name : String} {declared : Option WrittenType} {value : Ty}
    {span : Span} (sane : value.isError = false) :
    Diagnostics.hasErrors (reported (declarationRule name declared value).2 span) = false ↔
      Admits declared value := by
  cases declared with
  | some written => exact clean_mismatch_iff sane
  | none =>
    refine ⟨fun clean => (type_of_declarationRule sane clean).2.1, fun notUnit => ?_⟩
    rw [declarationRule, if_neg notUnit]
    rfl

/-- Without a cancellation all checkpoints pass. -/
theorem checkpoint_of_uncancelled {k : Checker} (h : k.session.Uncancelled) (span : Span) :
    k.checkpoint span = (true, k) := by
  rw [Checker.checkpoint, h.checkpoint span]

/-- Without a cancellation the body of a loop is always looked at. -/
theorem typeStmt_whileLoop_of_uncancelled {k : Checker} (h : k.session.Uncancelled)
    (expected : Option Ty) (span : Span) (test : Expr) (body : Block) :
    typeStmt expected (.whileLoop span test body) k =
      (.whileLoop span (k.condition test).1 (typeBlock expected body (k.condition test).2).1,
        (typeBlock expected body (k.condition test).2).2) := by
  have uncancelled := (Checker.leads_condition k test).uncancelled h
  simp only [typeStmt, checkpoint_of_uncancelled uncancelled, if_true]

namespace CleanStep

variable {R : Resolution} {Γ Γ' : Context} {scope scope' : ScopeId} {r r' : Resolver}
  {k k' : Checker} {e : Expr} {s : Stmt} {expected : Option Ty}

/-- At a later place where still no error was found. -/
theorem next (h : CleanStep R Γ scope r k) (leads : k.Leads k')
    (clean : k'.session.hasErrors = false) (there : InStep R Γ' scope' r' k') :
    CleanStep R Γ' scope' r' k' :=
  ⟨there, clean, leads.uncancelled h.uncancelled⟩

/-- After a warning about a statement behind a `return`. -/
theorem warned (h : CleanStep R Γ scope r k) (afterReturn : Bool) (span : Span) :
    CleanStep R Γ scope r
      (if afterReturn then k.recordAll (reported [.unreachableCode] span) else k) := by
  refine h.next (Checker.leads_warning ..) ?_ (h.toInStep.warned ..).1
  cases afterReturn with
  | false => exact h.clean
  | true =>
    refine (Session.hasErrors_recordAll ..).trans ?_
    rw [h.clean]
    rfl

/-! ## Conditions and returned values -/

theorem condition (h : CleanStep R Γ scope r k) (distinct : e.preorder.Nodup)
    (settled : Settled R e.preorder (r.resolveExpr scope e)) :
    InAgreement (k.condition e).2.session
      (fun t => TypeSystem.ExprTyped IsValue Γ.environment e t ∧ t.type = .bool)
      (k.condition e).1 :=
  h.checked distinct settled (· = .bool) (fun t => reported (mismatch .bool t.type) t.span)
    fun _ sane => clean_mismatch_iff sane

theorem afterCondition (h : CleanStep R Γ scope r k)
    (clean : (k.condition e).2.session.hasErrors = false) :
    CleanStep R Γ scope (r.resolveExpr scope e) (k.condition e).2 :=
  h.next (Checker.leads_condition k e) clean (h.toInStep.afterCondition e)

/-- A `return`, which stands in a function. -/
theorem ret {type : Ty} {span : Span} :
    ∀ {value : Option Expr}, CleanStep R Γ scope r k → (Stmt.ids (.ret span value)).Nodup →
      Settled R (Stmt.ids (.ret span value)) (Resolver.resolveStmt scope true (.ret span value) r) →
      InAgreement (typeStmt (some type) (.ret span value) k).2.session
        (fun t => TypeSystem.StmtTyped IsValue Γ.environment (some type) (.ret span value) t
          Γ.environment)
        (typeStmt (some type) (.ret span value) k).1
  | none, h, _, _ => by
    have rule : Diagnostics.hasErrors (reported (mismatch type .unit) span) = false ↔
        .unit = type := clean_mismatch_iff rfl
    constructor
    · intro clean
      have found := (Session.hasErrors_recordAll ..).symm.trans clean
      rw [Bool.or_eq_false_iff] at found
      obtain rfl := rule.1 found.2
      exact .leave
    · intro t typed
      cases typed
      refine (Session.hasErrors_recordAll ..).trans ?_
      rw [h.clean]
      exact rule.2 rfl
  | some value, h, distinct, settled => by
    have agrees := h.checked distinct settled (· = type)
      (fun t => reported (mismatch type t.type) t.span) fun _ sane => clean_mismatch_iff sane
    constructor
    · intro clean
      obtain ⟨typed, fits⟩ := agrees.sound clean
      exact .giveBack typed fits
    · intro t typed
      cases typed with
      | giveBack hv fits => exact agrees.complete _ ⟨hv, fits⟩

/-! ## Declarations of variables -/

theorem letVar {id : NodeId} {span nameSpan : Span} {name : String} {declared : Option WrittenType}
    {value : Expr} {inFunction : Bool} (form : s = .letVar id span name nameSpan declared value)
    (h : CleanStep R Γ scope r k) (distinct : s.ids.Nodup)
    (settled : Settled R s.ids (Resolver.resolveStmt scope inFunction s r)) :
    (∀ t Δ', TypeSystem.StmtTyped IsValue Γ.environment expected s t Δ' →
      (typeStmt expected s k).2.session.hasErrors = false) ∧
    ((typeStmt expected s k).2.session.hasErrors = false → ∃ type : Ty,
      TypeSystem.StmtTyped IsValue Γ.environment expected s (typeStmt expected s k).1
        (Γ.declare name type).environment ∧
      CleanStep R (Γ.declare name type) scope (Resolver.resolveStmt scope inFunction s r)
        (typeStmt expected s k).2) := by
  obtain ⟨isNew, below⟩ := List.nodup_cons.1 (form ▸ distinct)
  have inValue : Settled R value.preorder (r.resolveExpr scope value) := by
    subst form
    exact (settled.mono (List.subset_cons_self ..)).before (Resolver.later_declare ..)
      (List.disjoint_singleton.2 isNew)
  have agrees := h.checked below inValue (Admits declared)
    (fun t => reported (declarationRule name declared t.type).2 t.span)
    fun _ sane => clean_declarationRule_iff sane
  have session : (typeStmt expected s k).2.session = (k.expr value).2.session.recordAll
      (reported (declarationRule name declared (k.expr value).1.type).2
        (k.expr value).1.span) := by
    subst form
    exact Checker.session_infer ..
  rw [← session] at agrees
  refine ⟨fun t Δ' typed => ?_, fun clean => ?_⟩
  · subst form
    cases typed with
    | letVar hv admits => exact agrees.complete _ ⟨hv, admits⟩
  · obtain ⟨v, ref, typedForm, -, -, -, -, there, -⟩ :=
      h.declareVariable form distinct settled clean
    obtain ⟨typed, admits⟩ := agrees.sound clean
    refine ⟨v.type, ?_, h.next (leads_typeStmt expected s k) clean there⟩
    subst form
    obtain ⟨-, -, -, -, rfl⟩ := Typed.Stmt.letVar.inj typedForm
    rw [typedForm, Context.environment_declare]
    exact .letVar typed admits

/-- A statement in front of others. That the rules agree with what is found in it is known if it
declares nothing. If nothing is found, they agree about what names mean behind it. -/
theorem first (h : CleanStep R Γ scope r k) (wf : s.WellFormed) (distinct : s.ids.Nodup)
    (settled : Settled R s.ids (Resolver.resolveStmt scope expected.isSome s r))
    (quiet : s.declares = false → InAgreement (typeStmt expected s k).2.session
      (fun t => TypeSystem.StmtTyped IsValue Γ.environment expected s t Γ.environment)
      (typeStmt expected s k).1) :
    (∀ t Δ', TypeSystem.StmtTyped IsValue Γ.environment expected s t Δ' →
      (typeStmt expected s k).2.session.hasErrors = false) ∧
    ((typeStmt expected s k).2.session.hasErrors = false → ∃ Γ₁,
      (Γ₁ = Γ ∨ ∃ name type, Γ₁ = Γ.declare name type) ∧
      TypeSystem.StmtTyped IsValue Γ.environment expected s (typeStmt expected s k).1
        Γ₁.environment ∧
      CleanStep R Γ₁ scope (Resolver.resolveStmt scope expected.isSome s r)
        (typeStmt expected s k).2) := by
  cases declares : s.declares with
  | false =>
    have agrees := quiet declares
    refine ⟨fun t Δ' typed => ?_, fun clean => ?_⟩
    · obtain rfl := typed.environment_eq declares
      exact agrees.complete t typed
    · have later := Resolver.later_resolveStmt s scope expected.isSome r wf.wellPlaced declares
      have leads := leads_typeStmt expected s k
      have same := (h.toInStep.stmt s wf declares distinct settled clean).2
      exact ⟨Γ, .inl rfl, agrees.sound clean, h.next leads clean (h.after later leads same)⟩
  | true =>
    cases s with
    | letVar id span name nameSpan declared value =>
      obtain ⟨complete, sound⟩ := h.letVar rfl distinct settled
      refine ⟨complete, fun clean => ?_⟩
      obtain ⟨type, typed, there⟩ := sound clean
      exact ⟨_, .inr ⟨name, type, rfl⟩, typed, there⟩
    | function => exact wf.elim
    | _ => cases declares

end CleanStep

/-- Agreement on a statement and on those behind it. The rules determine what names mean behind the
first one. -/
theorem InAgreement.cons {after rest : Session} {Δ : Environment} {expected : Option Ty} {s : Stmt}
    {ss : List Stmt} {t : Typed.Stmt} {ts : List Typed.Stmt}
    (complete : ∀ t' Δ', TypeSystem.StmtTyped IsValue Δ expected s t' Δ' →
      after.hasErrors = false)
    (leads : after.Leads rest)
    (sound : after.hasErrors = false → ∃ Δ₁, TypeSystem.StmtTyped IsValue Δ expected s t Δ₁ ∧
      InAgreement rest (TypeSystem.BodyTyped IsValue Δ₁ expected ss) ts) :
    InAgreement rest (TypeSystem.BodyTyped IsValue Δ expected (s :: ss)) (t :: ts) := by
  constructor
  · intro clean
    obtain ⟨Δ₁, first, agrees⟩ := sound (leads.clean clean)
    exact .cons first (agrees.sound clean)
  · intro ts' typed
    cases typed with
    | cons first' rest' =>
      obtain ⟨Δ₁, first, agrees⟩ := sound (complete _ _ first')
      obtain ⟨-, rfl⟩ := first.unique first'
      exact agrees.complete _ rest'

/-! ## Statements -/

mutual

/-- A statement that declares nothing. -/
theorem CleanStep.stmt {R : Resolution} :
    ∀ (s : Stmt) {Γ : Context} {expected : Option Ty} {scope : ScopeId} {r : Resolver}
      {k : Checker}, CleanStep R Γ scope r k → s.WellFormed → s.declares = false → s.ids.Nodup →
      Settled R s.ids (Resolver.resolveStmt scope expected.isSome s r) →
      InAgreement (typeStmt expected s k).2.session
        (fun t => TypeSystem.StmtTyped IsValue Γ.environment expected s t Γ.environment)
        (typeStmt expected s k).1
  | .ifThen span test body, Γ, expected, scope, r, k, h, wf, _, distinct, settled => by
    have later := Resolver.later_resolveBlock body scope expected.isSome (r.resolveExpr scope test)
      wf.2.wellPlaced
    obtain ⟨⟨inTest, settledTest⟩, inBody, settledBody⟩ := settled.split distinct later
    have agrees := (h.condition inTest settledTest).both (leads_typeBlock expected body _).session
      fun clean => (h.afterCondition clean).block body wf.2 inBody settledBody
    refine ⟨fun clean => ?_, fun t typed => ?_⟩
    · obtain ⟨⟨hc, isBool⟩, hb⟩ := agrees.sound clean
      exact .ifThen hc isBool hb
    · cases typed with
      | ifThen hc isBool hb => exact agrees.complete (_, _) ⟨⟨hc, isBool⟩, hb⟩
  | .ifThenElse span test body elseBranch, Γ, expected, scope, r, k, h, wf, _, distinct,
      settled => by
    have later := Resolver.later_resolveBlock body scope expected.isSome (r.resolveExpr scope test)
      wf.2.1.wellPlaced
    have laterElse := Resolver.later_resolveStmt elseBranch scope expected.isSome
      (Resolver.resolveBlock scope expected.isSome body (r.resolveExpr scope test))
      wf.2.2.1.wellPlaced wf.2.2.2
    obtain ⟨⟨inBoth, settledBoth⟩, inElse, settledElse⟩ := settled.split distinct laterElse
    obtain ⟨⟨inTest, settledTest⟩, inBody, settledBody⟩ := settledBoth.split inBoth later
    have leads := leads_typeBlock expected body (k.condition test).2
    have agreesBoth := (h.condition inTest settledTest).both leads.session
      fun clean => (h.afterCondition clean).block body wf.2.1 inBody settledBody
    have agrees := agreesBoth.both (leads_typeStmt expected elseBranch _).session fun clean => by
      have ready := h.afterCondition (leads.session.clean clean)
      have same := (ready.toInStep.block body wf.2.1 inBody settledBody clean).2
      exact (ready.next leads clean (ready.after later leads same)).stmt elseBranch wf.2.2.1
        wf.2.2.2 inElse settledElse
    refine ⟨fun clean => ?_, fun t typed => ?_⟩
    · obtain ⟨⟨⟨hc, isBool⟩, hb⟩, ht⟩ := agrees.sound clean
      exact .ifThenElse hc isBool hb ht
    · cases typed with
      | ifThenElse hc isBool hb ht =>
        obtain rfl := ht.environment_eq wf.2.2.2
        exact agrees.complete ((_, _), _) ⟨⟨⟨hc, isBool⟩, hb⟩, ht⟩
  | .whileLoop span test body, Γ, expected, scope, r, k, h, wf, _, distinct, settled => by
    rw [resolveStmt_whileLoop h.resolverSound settled.clean] at settled
    rw [typeStmt_whileLoop_of_uncancelled h.uncancelled]
    have asked := Resolver.later_checkpoint none (r.resolveExpr scope test) body.span
    have later := asked.trans (Resolver.later_resolveBlock body scope expected.isSome
      ((r.resolveExpr scope test).checkpoint body.span).2 wf.2.wellPlaced)
    obtain ⟨⟨inTest, settledTest⟩, inBody, settledBody⟩ := settled.split distinct later
    have agrees := (h.condition inTest settledTest).both (leads_typeBlock expected body _).session
      fun clean => by
        have ready := h.afterCondition clean
        exact (ready.next (.refl _) clean (ready.after asked (.refl _) (.refl ..))).block body wf.2
          inBody settledBody
    refine ⟨fun clean => ?_, fun t typed => ?_⟩
    · obtain ⟨⟨hc, isBool⟩, hb⟩ := agrees.sound clean
      exact .whileLoop hc isBool hb
    · cases typed with
      | whileLoop hc isBool hb => exact agrees.complete (_, _) ⟨⟨hc, isBool⟩, hb⟩
  | .block b, Γ, expected, scope, r, k, h, wf, _, distinct, settled => by
    have agrees := h.block b wf distinct settled
    refine ⟨fun clean => .block (agrees.sound clean), fun t typed => ?_⟩
    cases typed with
    | block hb => exact agrees.complete _ hb
  | .expression span value, Γ, expected, scope, r, k, h, wf, _, distinct, settled => by
    have agrees := h.expr distinct settled
    refine ⟨fun clean => .expression (agrees.sound clean), fun t typed => ?_⟩
    cases typed with
    | expression hv => exact agrees.complete _ hv
  | .ret span value, Γ, some type, scope, r, k, h, wf, _, distinct, settled =>
    h.ret distinct settled
  | .ret span value, Γ, none, scope, r, k, h, wf, _, distinct, settled =>
    (not_clean_ret settled.clean).elim
  | .letVar .., _, _, _, _, _, _, _, declares, _, _ => by cases declares
  | .function .., _, _, _, _, _, _, wf, _, _, _ => wf.elim
  | .error .., _, _, _, _, _, _, wf, _, _, _ => wf.elim

theorem CleanStep.block {R : Resolution} :
    ∀ (b : Block) {Γ : Context} {expected : Option Ty} {scope : ScopeId} {r : Resolver}
      {k : Checker}, CleanStep R Γ scope r k → Stmt.BlockWellFormed b → (Stmt.blockIds b).Nodup →
      Settled R (Stmt.blockIds b) (Resolver.resolveBlock scope expected.isSome b r) →
      InAgreement (typeBlock expected b k).2.session
        (TypeSystem.BlockTyped IsValue Γ.environment expected b) (typeBlock expected b k).1
  | .mk id span body, Γ, expected, scope, r, k, h, wf, distinct, settled => by
    obtain ⟨-, inBody⟩ := List.nodup_cons.1 distinct
    rw [Resolver.resolveBlock] at settled
    simp only [Resolver.hoist_eq_self wf.2.wellPlaced] at settled
    have agrees := (h.next (.refl k) h.clean (h.push id)).all false body wf.2 inBody
      (settled.mono (List.subset_cons_self ..))
    refine ⟨fun clean => .mk (agrees.sound clean), fun t typed => ?_⟩
    cases typed with
    | mk hs => exact agrees.complete _ hs

/-- The statements of a block. -/
theorem CleanStep.all {R : Resolution} :
    ∀ (afterReturn : Bool) (ss : List Stmt) {Γ : Context} {expected : Option Ty} {scope : ScopeId}
      {r : Resolver} {k : Checker}, CleanStep R Γ scope r k → Stmt.AllWellFormed ss →
      (Stmt.idsAll ss).Nodup →
      Settled R (Stmt.idsAll ss) (Resolver.resolveAll scope expected.isSome ss r) →
      InAgreement (typeAll expected afterReturn ss k).2.session
        (TypeSystem.BodyTyped IsValue Γ.environment expected ss)
        (typeAll expected afterReturn ss k).1
  | _, [], Γ, expected, scope, r, k, h, _, _, _ => ⟨fun _ => .nil, fun _ _ => h.clean⟩
  | afterReturn, s :: ss, Γ, expected, scope, r, k, h, wf, distinct, settled => by
    have ready := h.warned afterReturn s.span
    simp only [typeAll]
    generalize (if afterReturn = true then k.recordAll (reported [.unreachableCode] s.span)
      else k) = k₁ at ready ⊢
    have later := Resolver.later_resolveAll ss scope expected.isSome
      (Resolver.resolveStmt scope expected.isSome s r) wf.2.wellPlaced
    obtain ⟨⟨inFirst, settledFirst⟩, inRest, settledRest⟩ := settled.split distinct later
    obtain ⟨complete, sound⟩ := ready.first wf.1 inFirst settledFirst fun quiet =>
      ready.stmt s wf.1 quiet inFirst settledFirst
    refine .cons complete (leads_typeAll expected s.isReturn ss _).session fun clean => ?_
    obtain ⟨Γ₁, -, typed, there⟩ := sound clean
    exact ⟨_, typed, there.all s.isReturn ss wf.2 inRest settledRest⟩

end

end MiniLang.Semantics
