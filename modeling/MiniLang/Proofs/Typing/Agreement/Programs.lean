import MiniLang.Proofs.Compilation.Stages
import MiniLang.Proofs.Typing.Agreement.Statements

/-!
# Typing programs agrees with the type system

In a program that was read and resolved without errors, the checker finds an error exactly if the
program is not well typed, and otherwise gives it the types that the rules determine
(`typeCheck_iff`). By these rules numbers are compared with numbers and truth values with truth
values, but not calls that give back nothing with others (`typeCheck_rejects_comparedCalls`).
-/

set_option autoImplicit false

namespace MiniLang.Semantics

open Typing hiding Context
open TypeSystem (IsValue NoFunction)

/-! ## Functions -/

/-- At the beginning of a function, outside of all blocks. -/
theorem Context.environment_enter {Γ : Context} (outside : Γ.locals = []) (scope : ScopeId)
    (params : List Param) : (Γ.enter scope params).environment = Γ.environment.enter params := by
  have empty : ({ Γ with locals := [{ scope := scope }] } : Context).environment =
      Γ.environment.inner := by
    simp [environment, TypeSystem.Environment.inner, outside]
  rw [TypeSystem.Environment.enter, ← empty, ← environment_foldl_declare, enter_eq]
  rfl

theorem ofReturn_ne_unit_iff {returnType : Option WrittenType} :
    Ty.ofReturn returnType ≠ .unit ↔ returnType ≠ none := by
  rcases returnType with - | ⟨name, span⟩
  · exact iff_of_false (fun ne => ne rfl) fun ne => ne rfl
  · refine iff_of_true ?_ nofun
    cases name <;> exact nofun

/-- The complaints about a function are about bodies that do not always return. -/
theorem clean_functionRule_iff {header : FunctionHeader} {body : Typed.Block} :
    Diagnostics.hasErrors (functionRule header body) = false ↔
      (header.returnType ≠ none → body.returns = true) := by
  rw [← ofReturn_ne_unit_iff]
  refine ⟨returns_of_functionRule, fun returns => ?_⟩
  rw [functionRule, if_neg]
  · rfl
  · rintro complaint
    obtain ⟨needed, none⟩ := Bool.and_eq_true_iff.1 complaint
    rw [returns (of_decide_eq_true needed)] at none
    cases none

namespace CleanStep

variable {R : Resolution} {Γ : Context} {r : Resolver} {k : Checker}

theorem function {scope : ScopeId} {span bodySpan : Span} {header : FunctionHeader} {id : NodeId}
    {body : List Stmt} (h : CleanStep R Γ scope r k) (outside : Γ.locals = [])
    (wf : Stmt.BlockWellFormed (.mk id bodySpan body))
    (distinct : (Stmt.ids (.function span header (.mk id bodySpan body))).Nodup)
    (settled : Settled R (Stmt.ids (.function span header (.mk id bodySpan body)))
      (Resolver.resolveFunction scope header (.mk id bodySpan body) r)) :
    InAgreement (typeStmt none (.function span header (.mk id bodySpan body)) k).2.session
      (fun t => TypeSystem.StmtTyped IsValue Γ.environment none
        (.function span header (.mk id bodySpan body)) t Γ.environment)
      (typeStmt none (.function span header (.mk id bodySpan body)) k).1 := by
  obtain ⟨r', there, settledBody, -⟩ := h.toInStep.enterFunction outside wf distinct settled
  have inBody := (List.nodup_cons.1 (List.nodup_append'.1 (List.nodup_cons.1 distinct).2).2.1).2
  have agrees := (h.next (.refl k) h.clean there).all false body wf.2 inBody settledBody
  rw [Context.environment_enter outside] at agrees
  have rule := @clean_functionRule_iff header
    (typeBlock (some (.ofReturn header.returnType)) (.mk id bodySpan body) k).1
  constructor
  · intro clean
    have found := (Session.hasErrors_recordAll ..).symm.trans clean
    rw [Bool.or_eq_false_iff] at found
    have typed := agrees.sound found.1
    exact .function typed fun needed => typed.returns_iff.1 (rule.1 found.2 needed)
  · intro t typed
    cases typed with
    | function hb returns =>
      have clean := agrees.complete _ hb
      refine (Session.hasErrors_recordAll ..).trans (Bool.or_eq_false_iff.2 ⟨clean, rule.2 ?_⟩)
      exact fun needed => (agrees.sound clean).returns_iff.2 (returns needed)

end CleanStep

/-! ## Programs -/

/-- Without a cancellation all statements of the top level are looked at. -/
theorem typeTopLevel_cons_of_uncancelled {k : Checker} (h : k.session.Uncancelled)
    (afterReturn : Bool) (s : Stmt) (ss : List Stmt) :
    ∃ k₁, k₁ = (if afterReturn then k.recordAll (reported [.unreachableCode] s.span) else k) ∧
      typeTopLevel afterReturn (s :: ss) k =
        ((typeStmt none s k₁).1 :: (typeTopLevel s.isReturn ss (typeStmt none s k₁).2).1,
          (typeTopLevel s.isReturn ss (typeStmt none s k₁).2).2) := by
  refine ⟨_, rfl, ?_⟩
  simp only [typeTopLevel, checkpoint_of_uncancelled h, if_true]

/-- The statements of the top level, where no scope is open. -/
theorem CleanStep.topLevel {R : Resolution} :
    ∀ (afterReturn : Bool) (ss : List Stmt) {Γ : Context} {r : Resolver} {k : Checker},
      CleanStep R Γ globalScope r k → Γ.locals = [] → (∀ s ∈ ss, s.TopWellFormed) →
      (Stmt.idsAll ss).Nodup → Settled R (Stmt.idsAll ss) (Resolver.resolveTopLevel ss r) →
      InAgreement (typeTopLevel afterReturn ss k).2.session
        (TypeSystem.BodyTyped IsValue Γ.environment none ss) (typeTopLevel afterReturn ss k).1
  | _, [], Γ, r, k, h, _, _, _, _ => ⟨fun _ => .nil, fun _ _ => h.clean⟩
  | afterReturn, s :: ss, Γ, r, k, h, outside, wf, distinct, settled => by
    have first := wf s List.mem_cons_self
    have others := fun s mem => wf s (List.mem_cons_of_mem _ mem)
    rw [resolveTopLevel_cons h.resolverSound settled.clean] at settled
    obtain ⟨k₁, warned, result⟩ := typeTopLevel_cons_of_uncancelled h.uncancelled afterReturn s ss
    rw [result]
    have asked := h.toInStep.after (Resolver.later_checkpoint none r s.span) (.refl k) (.refl ..)
    have ready := (h.next (.refl k) h.clean asked).warned afterReturn s.span
    rw [← warned] at ready
    have later := Resolver.later_resolveTopLevel ss
      (Resolver.resolveStmt globalScope false s (r.checkpoint s.span).2)
      fun s mem => (others s mem).wellPlaced
    obtain ⟨⟨inFirst, settledFirst⟩, inRest, settledRest⟩ := settled.split distinct later
    replace settledFirst : Settled R s.ids (Resolver.resolveStmt globalScope
      (none : Option Ty).isSome s (r.checkpoint s.span).2) := settledFirst
    have leads := leads_typeStmt none s k₁
    have leadsRest := leads_typeTopLevel s.isReturn ss (typeStmt none s k₁).2
    cases first with
    | inner wfFirst =>
      obtain ⟨complete, sound⟩ := ready.first wfFirst inFirst settledFirst fun quiet =>
        ready.stmt s wfFirst quiet inFirst settledFirst
      refine .cons complete leadsRest.session fun clean => ?_
      obtain ⟨Γ₁, kept, typed, there⟩ := sound clean
      have outside₁ : Γ₁.locals = [] := by
        rcases kept with rfl | ⟨name, type, rfl⟩
        · exact outside
        · exact Context.locals_declare_of_nil outside name type
      exact ⟨_, typed, there.topLevel s.isReturn ss outside₁ others inRest settledRest⟩
    | @function span header body here isName areNames hb =>
      obtain ⟨id, bodySpan, body⟩ := body
      have agrees := ready.function outside hb inFirst settledFirst
      refine .cons (fun t Δ' typed => ?_) leadsRest.session fun clean => ?_
      · obtain rfl : Δ' = Γ.environment := by cases typed; rfl
        exact agrees.complete t typed
      · obtain ⟨-, -, -, -, -, -, -, -, same⟩ := ready.toInStep.function outside isName areNames hb
          inFirst settledFirst clean
        have traceless := Resolver.later_resolveFunction globalScope header (r.checkpoint span).2
          hb.wellPlaced
        have there := ready.next leads clean (ready.after traceless leads same)
        exact ⟨_, agrees.sound clean,
          there.topLevel false ss outside others inRest settledRest⟩

/-- Resolution and typing of a program that was read without errors. -/
theorem typeCheck_agrees {p : Program} {s s' : Session} (wf : ∀ st ∈ p.body, st.TopWellFormed)
    (distinct : (Stmt.idsAll p.body).Nodup) (going : s.cancelled = false)
    (resolved : (resolve p s).2.hasErrors = false) (clean : s'.hasErrors = false)
    (uncancelled : s'.Uncancelled) :
    InAgreement (typeCheck p (resolve p s).1 s').2 (TypeSystem.ProgramTyped IsValue p)
      (typeCheck p (resolve p s).1 s').1 := by
  have later := Resolver.later_resolveTopLevel p.body
    ((Resolver.start s).hoist globalScope p.body) fun s mem => (wf s mem).wellPlaced
  have hoisted := (hoisted_start s).hoist p.body (later.leads.clean resolved)
  rw [List.nil_append] at hoisted
  have sound := Session.sound_of_not_cancelled going
  have ready : CleanStep (resolve p s).1 { functions := signatures p } globalScope
      ((Resolver.start s).hoist globalScope p.body) (.start (resolve p s).1 s') :=
    ⟨⟨hoisted.fits later.grows, rfl, (leads_hoist ..).sound sound,
      Session.sound_of_not_cancelled uncancelled.unseen⟩, clean, uncancelled⟩
  have settled : Settled (resolve p s).1 (Stmt.idsAll p.body)
      (Resolver.resolveTopLevel p.body ((Resolver.start s).hoist globalScope p.body)) :=
    ⟨resolved, .refl _, fun _ _ => rfl, fun _ _ => rfl, fun _ _ => rfl⟩
  have agrees := ready.topLevel false p.body rfl wf distinct settled
  exact ⟨agrees.sound, fun t typed => agrees.complete t.body typed⟩

variable {source : List Char} {s s₁ s₁' s₂ s₂' : Session} {parsed : Parsed} {R : Resolution}
  {t : Typed.Program}

/-- The checker finds no error in a program exactly if it is well typed, and then the types that it
gives are the ones that the program has. -/
theorem typeCheck_iff (isParsed : parseSource source s = parsed) (before : s.hasErrors = false)
    (valid : parsed.valid = true) (isResolved : resolve parsed.program s₁ = (R, s₁'))
    (going : s₁.cancelled = false) (resolved : s₁'.hasErrors = false)
    (isChecked : typeCheck parsed.program R s₂ = (t, s₂')) (clean : s₂.hasErrors = false)
    (uncancelled : s₂.Uncancelled) :
    (s₂'.hasErrors = false ↔ ∃ t', TypeSystem.ProgramTyped IsValue parsed.program t') ∧
    (s₂'.hasErrors = false → TypeSystem.ProgramTyped IsValue parsed.program t ∧
      ∀ t', TypeSystem.ProgramTyped IsValue parsed.program t' → t'.types = t.types) := by
  obtain ⟨-, distinct, -, wellFormed⟩ := parse_read (deliveries_fit source) s
  have isValid := valid_iff (deliveries source) before
  change parse (deliveries source) s = parsed at isParsed
  rw [isParsed] at distinct wellFormed isValid
  have noError : (resolve parsed.program s₁).2.hasErrors = false := by
    rw [isResolved]
    exact resolved
  have agrees := typeCheck_agrees (wellFormed (isValid.1 valid)) distinct going noError clean
    uncancelled
  rw [isResolved, isChecked] at agrees
  exact ⟨⟨fun none => ⟨t, agrees.sound none⟩, fun ⟨t', typed⟩ => agrees.complete t' typed⟩,
    fun none => ⟨agrees.sound none, fun t' typed => typed.unique (agrees.sound none)⟩⟩

/-- Whether a source text is read without errors and its program passes a test, whether errors are
found in its names, and whether they are in its types. -/
def observe (test : Program → Bool) (source : String) : Bool × Bool × Bool :=
  let parsed := parseSource source.toList .fresh
  let (R, s₁) := resolve parsed.program .fresh
  (parsed.valid && test parsed.program, s₁.hasErrors,
    (typeCheck parsed.program R .fresh).2.hasErrors)

theorem exists_stages {test : Program → Bool} {source : String} {errors : Bool}
    (observed : observe test source = (true, false, errors)) :
    ∃ parsed R s₁ t s₂, parseSource source.toList .fresh = parsed ∧ parsed.valid = true ∧
      test parsed.program = true ∧ resolve parsed.program .fresh = (R, s₁) ∧
      s₁.hasErrors = false ∧ typeCheck parsed.program R .fresh = (t, s₂) ∧
      s₂.hasErrors = errors := by
  obtain ⟨readable, observed⟩ := Prod.mk.inj observed
  obtain ⟨resolved, typed⟩ := Prod.mk.inj observed
  obtain ⟨valid, passed⟩ := Bool.and_eq_true_iff.1 readable
  exact ⟨_, _, _, _, _, rfl, valid, passed, rfl, resolved, rfl, typed⟩

/-- A function that calls itself, and a variable that has its name and hides it. -/
def evenNumber : String :=
  "fn even(n: int) -> bool { if (n == 0) { return true; } else { return !even(n - 1); } } " ++
  "{ let even = even(4); if (even) {} }"

/-- A variable that gets a value of another type. -/
def otherType : String := "let x = 1; { x = true; }"

/-- One of them is well typed, the other one is not. -/
theorem typeCheck_iff_evenNumber_otherType :
    (∃ parsed R s₁ t s₂, parseSource evenNumber.toList .fresh = parsed ∧ parsed.valid = true ∧
      resolve parsed.program .fresh = (R, s₁) ∧ s₁.hasErrors = false ∧
      typeCheck parsed.program R .fresh = (t, s₂) ∧ s₂.hasErrors = false ∧
      TypeSystem.ProgramTyped IsValue parsed.program t) ∧
    ∃ parsed, parseSource otherType.toList .fresh = parsed ∧ parsed.valid = true ∧
      ¬ ∃ t, TypeSystem.ProgramTyped IsValue parsed.program t := by
  constructor
  · have observed : observe (fun _ => true) evenNumber = (true, false, false) := by decide +kernel
    obtain ⟨parsed, R, s₁, t, s₂, isParsed, valid, -, isResolved, resolved, isChecked, clean⟩ :=
      exists_stages observed
    have same := typeCheck_iff isParsed rfl valid isResolved rfl resolved isChecked rfl ⟨rfl, rfl⟩
    exact ⟨parsed, R, s₁, t, s₂, isParsed, valid, isResolved, resolved, isChecked, clean,
      (same.2 clean).1⟩
  · have observed : observe (fun _ => true) otherType = (true, false, true) := by decide +kernel
    obtain ⟨parsed, R, s₁, t, s₂, isParsed, valid, -, isResolved, resolved, isChecked, errors⟩ :=
      exists_stages observed
    have same := typeCheck_iff isParsed rfl valid isResolved rfl resolved isChecked rfl ⟨rfl, rfl⟩
    refine ⟨parsed, isParsed, valid, fun typed => ?_⟩
    cases errors.symm.trans (same.1.2 typed)

/-- A program is nothing but a comparison of two calls of the function that prints. -/
def comparesCalls (p : Program) : Bool :=
  match p.body with
  | [.expression _ (.binary _ _ .eq (.call _ _ f _ [.literal _ _ (.int _)])
      (.call _ _ g _ [.literal _ _ (.int _)]))] => f == "print" && g == "print"
  | _ => false

/-- The type of a call of the function that prints, where no variable hides it. -/
theorem typed_printCall (p : Program) (id idValue : NodeId) (span calleeSpan spanValue : Span)
    (value : Int) : ∃ c, TypeSystem.ExprTyped NoFunction ⟨signatures p, [[]]⟩
      (.call id span "print" calleeSpan [.literal idValue spanValue (.int value)]) c ∧
      c.type = .unit := by
  have known : TypeSystem.Environment.Calls ⟨signatures p, [[]]⟩ "print" ⟨[.int], .unit⟩ :=
    ⟨rfl, List.lookup_cons_self⟩
  exact ⟨.call ⟨id, span, .unit⟩ "print" none [.literal ⟨idValue, spanValue, .int⟩ (.int value)],
    .call known (.cons (.number value) .nil) rfl, rfl⟩

theorem typed_of_comparesCalls {p : Program} (h : comparesCalls p = true) :
    ∃ t, TypeSystem.ProgramTyped NoFunction p t := by
  unfold comparesCalls at h
  split at h
  next span id here _ _ f _ _ _ _ _ _ g _ _ _ _ body =>
    obtain ⟨isPrint, isPrint'⟩ := Bool.and_eq_true_iff.1 h
    obtain rfl := beq_iff_eq.1 isPrint
    obtain rfl := beq_iff_eq.1 isPrint'
    obtain ⟨left, hl, typeLeft⟩ := typed_printCall p _ _ _ _ _ _
    obtain ⟨right, hr, typeRight⟩ := typed_printCall p _ _ _ _ _ _
    have applies : TypeSystem.BinaryTyped NoFunction .eq left.type right.type .bool := by
      rw [typeLeft, typeRight]
      exact .equality (by decide) (.inr (.inr rfl))
    refine ⟨⟨here, [.expression span (.binary ⟨id, here, .bool⟩ .eq left right)], ⟨[]⟩⟩, ?_⟩
    rw [TypeSystem.ProgramTyped, body]
    exact .cons (.expression (.binary hl hr applies)) .nil
  next => cases h

/-- The comparison of two calls that give back nothing: they have the same type, which is that of no
function. -/
def comparedCalls : String := "print(1) == print(2);"

/-- If operands of any one type but those of functions could be compared, it would be well typed;
the checker finds an error. -/
theorem typeCheck_rejects_comparedCalls :
    ∃ parsed R s₁ t s₂, parseSource comparedCalls.toList .fresh = parsed ∧ parsed.valid = true ∧
      resolve parsed.program .fresh = (R, s₁) ∧ s₁.hasErrors = false ∧
      typeCheck parsed.program R .fresh = (t, s₂) ∧ s₂.hasErrors = true ∧
      ∃ t', TypeSystem.ProgramTyped NoFunction parsed.program t' := by
  have observed : observe comparesCalls comparedCalls = (true, false, true) := by decide +kernel
  obtain ⟨parsed, R, s₁, t, s₂, isParsed, valid, compares, isResolved, resolved, isChecked,
    errors⟩ := exists_stages observed
  exact ⟨parsed, R, s₁, t, s₂, isParsed, valid, isResolved, resolved, isChecked, errors,
    typed_of_comparesCalls compares⟩

end MiniLang.Semantics
