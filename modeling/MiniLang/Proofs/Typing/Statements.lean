import MiniLang.Proofs.Typing.Declarations

/-!
# Typing statements gives typed forms

Where neither the resolver nor the checker finds an error in statements, the typed statements that
the checker gives are a typed form of them (`InStep.all`), and nothing has changed about the symbols
of the scopes around (`SameSymbols`).
-/

set_option autoImplicit false

namespace MiniLang.Semantics

open Typing hiding Context

/-- A condition is a truth value. -/
theorem InStep.condition {R : Resolution} {Γ : Context} {scope : ScopeId} {r : Resolver}
    {k : Checker} {e : Expr} (h : InStep R Γ scope r k) (distinct : e.preorder.Nodup)
    (settled : Settled R e.preorder (r.resolveExpr scope e))
    (clean : (k.condition e).2.session.hasErrors = false) :
    ExprTyped Γ e (k.condition e).1 ∧ (k.condition e).1.type = .bool := by
  change ((k.expr e).2.session.recordAll _).hasErrors = false at clean
  rw [Session.hasErrors_recordAll, Bool.or_eq_false_iff] at clean
  have typed := h.expr distinct settled clean.1
  exact ⟨typed, eq_of_mismatch typed.noError clean.2⟩

theorem InStep.afterCondition {R : Resolution} {Γ : Context} {scope : ScopeId} {r : Resolver}
    {k : Checker} (h : InStep R Γ scope r k) (e : Expr) :
    InStep R Γ scope (r.resolveExpr scope e) (k.condition e).2 :=
  h.after (r.later_resolveExpr scope e) (Checker.leads_condition k e) (.refl ..)

/-- After a warning about a statement behind a `return`. -/
theorem InStep.warned {R : Resolution} {Γ : Context} {scope : ScopeId} {r : Resolver} {k : Checker}
    (h : InStep R Γ scope r k) (afterReturn : Bool) (ds : List Diagnostic) :
    InStep R Γ scope r (if afterReturn then k.recordAll ds else k) ∧
      SameSymbols r.tree k.context (if afterReturn then k.recordAll ds else k).context := by
  have same : SameSymbols r.tree k.context
      (if afterReturn then k.recordAll ds else k).context := by
    cases afterReturn <;> exact .refl ..
  exact ⟨h.after (.refl none r) (Checker.leads_warning afterReturn k ds) same, same⟩

/-- A loop whose resolution leaves no error behind was not cut off by a cancellation. -/
theorem resolveStmt_whileLoop {r : Resolver} {scope : ScopeId} {inFunction : Bool} {span : Span}
    {test : Expr} {body : Block} (sound : r.session.Sound)
    (clean : (Resolver.resolveStmt scope inFunction (.whileLoop span test body)
      r).session.hasErrors = false) :
    Resolver.resolveStmt scope inFunction (.whileLoop span test body) r =
      Resolver.resolveBlock scope inFunction body
        ((r.resolveExpr scope test).checkpoint body.span).2 := by
  have asked := Session.Leads.checkpoint (r.resolveExpr scope test).session body.span
  simp only [Resolver.resolveStmt] at clean ⊢
  split at clean
  next passed => rw [if_pos passed]
  next failed =>
    have sound := (r.later_resolveExpr scope test).leads.sound sound
    exact absurd (asked.2 sound clean) failed

/-- A loop whose typing leaves no error behind was not cut off by a cancellation. -/
theorem typeStmt_whileLoop {k : Checker} {expected : Option Ty} {span : Span} {test : Expr}
    {body : Block} (sound : k.session.Sound)
    (clean : (typeStmt expected (.whileLoop span test body) k).2.session.hasErrors = false) :
    typeStmt expected (.whileLoop span test body) k =
      (.whileLoop span (k.condition test).1
          (typeBlock expected body ((k.condition test).2.checkpoint body.span).2).1,
        (typeBlock expected body ((k.condition test).2.checkpoint body.span).2).2) := by
  have asked := Session.Leads.checkpoint (k.condition test).2.session body.span
  simp only [typeStmt] at clean ⊢
  split at clean
  next passed => rw [if_pos passed]
  next failed =>
    have sound := (Checker.leads_condition k test).session.sound sound
    exact absurd (asked.2 sound clean) failed

/-- A `return` outside of functions leaves an error behind. -/
theorem not_clean_ret {r : Resolver} {scope : ScopeId} {span : Span} {value : Option Expr} :
    (Resolver.resolveStmt scope false (.ret span value) r).session.hasErrors ≠ false := by
  intro clean
  have errors : (r.session.report .returnOutsideFunction span).hasErrors = true := by
    rw [Session.hasErrors_report]
    exact Bool.or_true _
  cases value with
  | none => cases errors.symm.trans clean
  | some e =>
    have later := Resolver.later_resolveExpr
      { r with session := r.session.report .returnOutsideFunction span } scope e
    cases (later.leads.errors errors).symm.trans clean

theorem span_typeBlock (expected : Option Ty) (b : Block) (k : Checker) :
    (typeBlock expected b k).1.span = b.span := by
  cases b with
  | mk id span body => rfl

/-- A statement in front of others. The statement itself is only looked at if it is a declaration;
what is known about it otherwise is given. -/
theorem InStep.head {R : Resolution} {Γ : Context} {expected : Option Ty} {scope : ScopeId}
    {r : Resolver} {k : Checker} {s : Stmt} (h : InStep R Γ scope r k) (wf : s.WellFormed)
    (distinct : s.ids.Nodup)
    (settled : Settled R s.ids (Resolver.resolveStmt scope expected.isSome s r))
    (clean : (typeStmt expected s k).2.session.hasErrors = false)
    (quiet : s.declares = false → StmtTyped Γ expected s (typeStmt expected s k).1 ∧
      SameSymbols r.tree k.context (typeStmt expected s k).2.context) :
    ∃ Γ₁, (Γ₁ = Γ ∨ ∃ name type, Γ₁ = Γ.declare name type) ∧
      InStep R Γ₁ scope (Resolver.resolveStmt scope expected.isSome s r) (typeStmt expected s k).2 ∧
      SameSymbols r.tree k.context (typeStmt expected s k).2.context ∧
      ∀ ss ts Γ', AllTyped Γ₁ expected ss ts Γ' →
        AllTyped Γ expected (s :: ss) ((typeStmt expected s k).1 :: ts) Γ' := by
  cases declares : s.declares with
  | false =>
    obtain ⟨typed, same⟩ := quiet declares
    have later := Resolver.later_resolveStmt s scope expected.isSome r wf.wellPlaced declares
    exact ⟨Γ, .inl rfl, h.after later (leads_typeStmt expected s k) same, same,
      fun _ _ _ rest => .statement typed rest⟩
  | true =>
    cases s with
    | letVar id span name nameSpan declared value =>
      obtain ⟨v, ref, form, typed, isValue, place, own, ready, same⟩ :=
        h.declareVariable rfl distinct settled clean
      refine ⟨_, .inr ⟨name, v.type, rfl⟩, ready, same, fun _ _ _ rest => ?_⟩
      rw [form]
      exact .letVar wf.1 wf.2 own typed isValue place rest
    | function => exact wf.elim
    | _ => cases declares

mutual

/-- The typed form of a statement that declares nothing. -/
theorem InStep.stmt {R : Resolution} :
    ∀ (s : Stmt) {Γ : Context} {expected : Option Ty} {scope : ScopeId} {r : Resolver}
      {k : Checker}, InStep R Γ scope r k → s.WellFormed → s.declares = false → s.ids.Nodup →
      Settled R s.ids (Resolver.resolveStmt scope expected.isSome s r) →
      (typeStmt expected s k).2.session.hasErrors = false →
      StmtTyped Γ expected s (typeStmt expected s k).1 ∧
        SameSymbols r.tree k.context (typeStmt expected s k).2.context
  | .ifThen span test body, Γ, expected, scope, r, k, h, wf, _, distinct, settled, clean => by
    have later := Resolver.later_resolveBlock body scope expected.isSome (r.resolveExpr scope test)
      wf.2.wellPlaced
    obtain ⟨⟨inTest, settledTest⟩, inBody, settledBody⟩ := settled.split distinct later
    have leads := leads_typeBlock expected body (k.condition test).2
    obtain ⟨typed, isBool⟩ := h.condition inTest settledTest (leads.session.clean clean)
    obtain ⟨typedBody, same⟩ := (h.afterCondition test).block body wf.2 inBody settledBody clean
    rw [Resolver.tree_resolveExpr] at same
    exact ⟨.ifThen wf.1 typed isBool typedBody, same⟩
  | .ifThenElse span test body elseBranch, Γ, expected, scope, r, k, h, wf, _, distinct, settled,
      clean => by
    have later := Resolver.later_resolveBlock body scope expected.isSome (r.resolveExpr scope test)
      wf.2.1.wellPlaced
    have laterElse := Resolver.later_resolveStmt elseBranch scope expected.isSome
      (Resolver.resolveBlock scope expected.isSome body (r.resolveExpr scope test))
      wf.2.2.1.wellPlaced wf.2.2.2
    obtain ⟨⟨inBoth, settledBoth⟩, inElse, settledElse⟩ := settled.split distinct laterElse
    obtain ⟨⟨inTest, settledTest⟩, inBody, settledBody⟩ := settledBoth.split inBoth later
    have leads := leads_typeBlock expected body (k.condition test).2
    have leadsElse := leads_typeStmt expected elseBranch
      (typeBlock expected body (k.condition test).2).2
    have cleanBody := leadsElse.session.clean clean
    obtain ⟨typed, isBool⟩ := h.condition inTest settledTest (leads.session.clean cleanBody)
    have ready := h.afterCondition test
    obtain ⟨typedBody, same⟩ := ready.block body wf.2.1 inBody settledBody cleanBody
    obtain ⟨typedElse, sameElse⟩ := (ready.after later leads same).stmt elseBranch wf.2.2.1
      wf.2.2.2 inElse settledElse clean
    have whole := same.trans later.grows sameElse
    rw [Resolver.tree_resolveExpr] at whole
    exact ⟨.ifThenElse wf.1 typed isBool typedBody typedElse, whole⟩
  | .whileLoop span test body, Γ, expected, scope, r, k, h, wf, _, distinct, settled, clean => by
    rw [resolveStmt_whileLoop h.resolverSound settled.clean] at settled
    have passed := typeStmt_whileLoop h.checkerSound clean
    rw [passed] at clean ⊢
    have asked := Resolver.later_checkpoint none (r.resolveExpr scope test) body.span
    have askedLeads := Checker.leads_checkpoint (k.condition test).2 body.span
    have later := asked.trans (Resolver.later_resolveBlock body scope expected.isSome
      ((r.resolveExpr scope test).checkpoint body.span).2 wf.2.wellPlaced)
    obtain ⟨⟨inTest, settledTest⟩, inBody, settledBody⟩ := settled.split distinct later
    have leads := askedLeads.trans
      (leads_typeBlock expected body ((k.condition test).2.checkpoint body.span).2)
    obtain ⟨typed, isBool⟩ := h.condition inTest settledTest (leads.session.clean clean)
    have ready := (h.afterCondition test).after asked askedLeads (.refl ..)
    obtain ⟨typedBody, same⟩ := ready.block body wf.2 inBody settledBody clean
    have same : SameSymbols (r.resolveExpr scope test).tree k.context _ := same
    rw [Resolver.tree_resolveExpr] at same
    exact ⟨.whileLoop wf.1 typed isBool typedBody, same⟩
  | .block b, Γ, expected, scope, r, k, h, wf, _, distinct, settled, clean => by
    obtain ⟨typed, same⟩ := h.block b wf distinct settled clean
    refine ⟨.block ?_ typed, same⟩
    rw [span_typeBlock]
    exact wf.valid
  | .expression span value, Γ, expected, scope, r, k, h, wf, _, distinct, settled, clean =>
    ⟨.expression wf (h.expr distinct settled clean), .refl ..⟩
  | .ret span none, Γ, none, scope, r, k, h, wf, _, distinct, settled, clean =>
    (not_clean_ret settled.clean).elim
  | .ret span (some value), Γ, none, scope, r, k, h, wf, _, distinct, settled, clean =>
    (not_clean_ret settled.clean).elim
  | .ret span none, Γ, some type, scope, r, k, h, wf, _, distinct, settled, clean => by
    have rule := (Session.hasErrors_recordAll ..).symm.trans clean
    rw [Bool.or_eq_false_iff] at rule
    have unit : Ty.unit = type := eq_of_mismatch rfl rule.2
    subst unit
    exact ⟨.leave wf, .refl ..⟩
  | .ret span (some value), Γ, some type, scope, r, k, h, wf, _, distinct, settled, clean => by
    have rule := (Session.hasErrors_recordAll ..).symm.trans clean
    rw [Bool.or_eq_false_iff] at rule
    have typed := h.expr distinct settled rule.1
    have fits : (k.expr value).1.type = type := eq_of_mismatch typed.noError rule.2
    subst fits
    exact ⟨.giveBack wf typed, .refl ..⟩
  | .letVar .., _, _, _, _, _, _, _, declares, _, _, _ => by cases declares
  | .function .., _, _, _, _, _, _, wf, _, _, _, _ => wf.elim
  | .error .., _, _, _, _, _, _, wf, _, _, _, _ => wf.elim

/-- The typed form of a block. -/
theorem InStep.block {R : Resolution} :
    ∀ (b : Block) {Γ : Context} {expected : Option Ty} {scope : ScopeId} {r : Resolver}
      {k : Checker}, InStep R Γ scope r k → Stmt.BlockWellFormed b → (Stmt.blockIds b).Nodup →
      Settled R (Stmt.blockIds b) (Resolver.resolveBlock scope expected.isSome b r) →
      (typeBlock expected b k).2.session.hasErrors = false →
      BlockTyped Γ expected b (typeBlock expected b k).1 ∧
        SameSymbols r.tree k.context (typeBlock expected b k).2.context
  | .mk id span body, Γ, expected, scope, r, k, h, wf, distinct, settled, clean => by
    obtain ⟨notInside, inBody⟩ := List.nodup_cons.1 distinct
    obtain ⟨isNew, inner⟩ := h.fits.isNew
    rw [Resolver.resolveBlock] at settled
    simp only [Resolver.hoist_eq_self wf.2.wellPlaced] at settled
    have own : k.context.resolution.blockScopes.get? id = some r.tree.size := by
      have inside := Resolver.later_resolveAll body r.tree.size expected.isSome
        (r.enter .block scope id).2 wf.2.wellPlaced
      rw [h.resolution, settled.blockScopes id List.mem_cons_self]
      exact (inside.blockScopes id notInside).trans (Table.get?_insert_self ..)
    obtain ⟨⟨Γ', typed⟩, same⟩ := (h.push id).all false body wf.2 inBody
      (settled.mono (List.subset_cons_self ..)) clean
    refine ⟨?_, (SameSymbols.refl ..).trans (ScopeTree.grows_push _ _ _) same⟩
    rw [typeBlock, own]
    exact .mk isNew inner typed

/-- The typed form of the statements of a block, and what holds after them. -/
theorem InStep.all {R : Resolution} :
    ∀ (afterReturn : Bool) (ss : List Stmt) {Γ : Context} {expected : Option Ty} {scope : ScopeId}
      {r : Resolver} {k : Checker}, InStep R Γ scope r k → Stmt.AllWellFormed ss →
      (Stmt.idsAll ss).Nodup →
      Settled R (Stmt.idsAll ss) (Resolver.resolveAll scope expected.isSome ss r) →
      (typeAll expected afterReturn ss k).2.session.hasErrors = false →
      (∃ Γ', AllTyped Γ expected ss (typeAll expected afterReturn ss k).1 Γ') ∧
        SameSymbols r.tree k.context (typeAll expected afterReturn ss k).2.context
  | _, [], Γ, expected, scope, r, k, h, _, _, _, _ => ⟨⟨Γ, .nil⟩, .refl ..⟩
  | afterReturn, s :: ss, Γ, expected, scope, r, k, h, wf, distinct, settled, clean => by
    obtain ⟨ready, same⟩ := h.warned afterReturn (reported [.unreachableCode] s.span)
    simp only [typeAll] at clean ⊢
    generalize (if afterReturn = true then k.recordAll (reported [.unreachableCode] s.span)
      else k) = k₁ at clean ready same ⊢
    have later := Resolver.later_resolveAll ss scope expected.isSome
      (Resolver.resolveStmt scope expected.isSome s r) wf.2.wellPlaced
    obtain ⟨⟨inFirst, settledFirst⟩, inRest, settledRest⟩ := settled.split distinct later
    have cleanFirst := (leads_typeAll expected s.isReturn ss _).session.clean clean
    obtain ⟨Γ₁, -, ready₁, sameFirst, cons⟩ := ready.head wf.1 inFirst settledFirst cleanFirst
      fun quiet => ready.stmt s wf.1 quiet inFirst settledFirst cleanFirst
    obtain ⟨⟨Γ', typedRest⟩, sameRest⟩ := ready₁.all s.isReturn ss wf.2 inRest settledRest clean
    have grows := (Resolver.later_resolveAll [s] scope expected.isSome r
      ⟨wf.1.wellPlaced, trivial⟩).grows
    exact ⟨⟨Γ', cons _ _ _ typedRest⟩, (same.trans (.refl _) sameFirst).trans grows sameRest⟩

end

end MiniLang.Semantics
