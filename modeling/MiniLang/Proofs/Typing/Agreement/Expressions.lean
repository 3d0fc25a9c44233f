import MiniLang.Proofs.Typing.Declarations
import MiniLang.Proofs.Typing.TypeSystem

/-!
# Typing expressions agrees with the type system

The checker finds no error in an expression exactly if the expression has types by the rules of the
type system, and then it gives it these (`CleanStep.expr`). One direction goes through the typed
forms that the checker is known to give; for the other one a lemma for each rule of the checker says
that it finds nothing wrong where a rule of the type system applies.
-/

set_option autoImplicit false

namespace MiniLang.Semantics

open Typing hiding Context
open TypeSystem (Environment IsValue BinaryTyped UnaryTyped)

/-! ## Contexts as environments -/

namespace Context

/-- What names mean in a context, without the numbers of the scopes. -/
def environment (Γ : Context) : Environment :=
  ⟨Γ.functions, Γ.locals.map Level.vars ++ [Γ.globals]⟩

theorem typeOf?_environment (Γ : Context) (name : String) :
    Γ.environment.typeOf? name = (Γ.lookup name).map Prod.snd := by
  obtain ⟨functions, globals, locals⟩ := Γ
  unfold environment Environment.typeOf? lookup
  induction locals with
  | nil =>
    simp only [List.map_nil, List.nil_append, find?, List.findSome?_cons, List.findSome?_nil]
    cases globals.lookup name <;> rfl
  | cons l ls ih =>
    simp only [List.map_cons, List.cons_append, List.findSome?_cons, find?, Level.type?]
    cases l.vars.lookup name with
    | some type => rfl
    | none => exact ih

theorem environment_declare (Γ : Context) (name : String) (type : Ty) :
    (Γ.declare name type).environment = Γ.environment.declare name type := by
  obtain ⟨functions, globals, locals⟩ := Γ
  cases locals <;> rfl

theorem environment_foldl_declare (params : List Param) :
    ∀ Γ : Context,
      (params.foldl (fun Γ p => Γ.declare p.name (.ofName p.type.name)) Γ).environment =
        params.foldl (fun Δ p => Δ.declare p.name (.ofName p.type.name)) Γ.environment := by
  induction params with
  | nil => exact fun _ => rfl
  | cons p params ih =>
    intro Γ
    rw [List.foldl_cons, ih, environment_declare, List.foldl_cons]

end Context

/-! ## Operators -/

theorem binaryType_eq_some_iff {op : BinaryOp} {left right type : Ty} :
    binaryType op left right = some type ↔ BinaryTyped IsValue op left right type := by
  constructor
  · intro applies
    unfold binaryType at applies
    split at applies
    · cases op <;> cases applies <;>
        first
        | exact .arithmetic (by decide)
        | exact .relational (by decide)
        | exact .equality (by decide) (.inl rfl)
    · cases op <;> cases applies <;>
        first
        | exact .logical (by decide)
        | exact .equality (by decide) (.inr rfl)
    · cases applies
  · intro typed
    cases typed with
    | arithmetic h => cases op <;> first | rfl | exact absurd h (by decide)
    | relational h => cases op <;> first | rfl | exact absurd h (by decide)
    | logical h => cases op <;> first | rfl | exact absurd h (by decide)
    | equality h same =>
      rcases same with rfl | rfl <;> cases op <;> first | rfl | exact absurd h (by decide)

theorem unaryTyped_iff {op : UnaryOp} {operand type : Ty} :
    UnaryTyped op operand type ↔ operand = operandType op ∧ type = operandType op := by
  constructor
  · intro typed
    cases typed <;> exact ⟨rfl, rfl⟩
  · rintro ⟨rfl, rfl⟩
    cases op
    · exact .neg
    · exact .not

/-! ## What typed forms say -/

variable {Γ : Context} {scope : ScopeId} {tree : ScopeTree} {c : Typing.Context}

mutual

/-- Typed forms have the types of the type system. -/
theorem ExprTyped.hasTypes {e : Expr} {t : Typed.Expr} (h : ExprTyped Γ e t) :
    TypeSystem.ExprTyped IsValue Γ.environment e t := by
  match h with
  | .literal _ _ (.int value) => exact .number value
  | .literal _ _ (.bool value) => exact .truth value
  | .var known _ => exact .var (by rw [Γ.typeOf?_environment, known]; rfl)
  | .binary hl hr applies =>
    exact .binary hl.hasTypes hr.hasTypes (binaryType_eq_some_iff.1 applies)
  | .unary ho applies => exact .unary ho.hasTypes (unaryTyped_iff.2 ⟨applies, rfl⟩)
  | .call free known hs fits _ =>
    exact .call ⟨by rw [Γ.typeOf?_environment, free]; rfl, known⟩ hs.hasTypes fits
  | .assignment hv known _ =>
    exact .assignment hv.hasTypes (by rw [Γ.typeOf?_environment, known]; rfl)

theorem ExprsTyped.hasTypes {es : List Expr} {ts : List Typed.Expr} (h : ExprsTyped Γ es ts) :
    TypeSystem.ExprsTyped IsValue Γ.environment es ts := by
  match h with
  | .nil => exact .nil
  | .cons first rest => exact .cons first.hasTypes rest.hasTypes

end

/-! ## Where rules find nothing -/

theorem not_isError_of_binaryTyped {op : BinaryOp} {left right type : Ty}
    (h : BinaryTyped IsValue op left right type) :
    left.isError = false ∧ right.isError = false := by
  cases h with
  | arithmetic | relational | logical => exact ⟨rfl, rfl⟩
  | equality _ same => rcases same with rfl | rfl <;> exact ⟨rfl, rfl⟩

theorem binaryRule_of_typed {op : BinaryOp} {left right type : Ty}
    (h : BinaryTyped IsValue op left right type) : binaryRule op left right = (type, []) := by
  obtain ⟨sane, sane'⟩ := not_isError_of_binaryTyped h
  simp only [binaryRule, sane, sane', binaryType_eq_some_iff.2 h]
  rfl

theorem unaryRule_of_typed {op : UnaryOp} {operand type : Ty}
    (h : UnaryTyped op operand type) : unaryRule op operand = (type, []) := by
  cases h <;> rfl

/-- Nothing but a warning is found about a divisor. -/
theorem clean_divisorRule (op : BinaryOp) (right : Typed.Expr) (span : Span) :
    Diagnostics.hasErrors (reported (divisorRule op right) span) = false := by
  unfold divisorRule
  split <;> rfl

theorem argumentRule_of_types (callee : String) :
    ∀ (position : Nat) (params : List Ty) (arguments : List Typed.Expr),
      arguments.map Typed.Expr.type = params → argumentRule callee position params arguments = []
  | _, [], [], _ => rfl
  | position, param :: params, a :: arguments, same => by
    obtain ⟨first, rest⟩ := List.cons.inj same
    have none := argumentRule_of_types callee (position + 1) params arguments rest
    simp only [argumentRule, first, none]
    simp [reported]

theorem mismatch_self (type : Ty) : mismatch type type = [] := by
  simp [mismatch]

/-- A name that means a variable refers to one of this type. -/
theorem Context.Fits.variable {name : String} {ref : SymbolRef} {type : Ty}
    (fits : Γ.Fits scope tree c) (found : tree.lookup scope name = some ref)
    (known : Γ.environment.typeOf? name = some type) :
    c.isFunction ref = false ∧ c.symbolType ref = type ∧ type.isValue = true := by
  rw [Γ.typeOf?_environment] at known
  rcases fits.use found with ⟨type', means, isVariable, isType, isValue⟩ | ⟨f, none, -⟩
  · rw [means] at known
    cases known
    exact ⟨isVariable, isType, isValue⟩
  · rw [none] at known
    cases known

/-- A name that can be called refers to a function with this signature. -/
theorem Context.Fits.callable {name : String} {ref : SymbolRef} {f : Signature}
    (fits : Γ.Fits scope tree c) (found : tree.lookup scope name = some ref)
    (known : Γ.environment.Calls name f) : c.symbolType ref = .function f.params f.result := by
  obtain ⟨free, declared⟩ := known
  rw [Γ.typeOf?_environment] at free
  rcases fits.use found with ⟨type', means, -⟩ | ⟨f', -, known, -, isType, -⟩
  · rw [means] at free
    cases free
  · cases known.symm.trans declared
    exact isType

mutual

/-- Nothing is found wrong with an expression that has types, and the checker gives it these. -/
theorem typeExpr_clean (fits : Γ.Fits scope tree c) :
    ∀ (e : Expr) {t : Typed.Expr}, Resolved c.resolution tree scope e.nameUses →
      TypeSystem.ExprTyped IsValue Γ.environment e t →
      Diagnostics.hasErrors (typeExpr c e).2 = false ∧ (typeExpr c e).1.type = t.type
  | .literal id span value, t, _, typed => by
    cases typed <;> exact ⟨rfl, rfl⟩
  | .var id span name, t, resolved, typed => by
    obtain ⟨ref, found, known⟩ := resolved ⟨id, name, span⟩ (List.mem_singleton_self _)
    change c.resolution.references.get? id = some ref at known
    cases typed with
    | var means =>
      obtain ⟨isVariable, type, -⟩ := fits.variable found means
      simp only [typeExpr, known, nameRule, isVariable, type]
      exact ⟨rfl, rfl⟩
  | .binary id span op left right, t, resolved, typed => by
    cases typed with
    | binary hl hr applies =>
      obtain ⟨inLeft, typeLeft⟩ := typeExpr_clean fits left
        (fun u mem => resolved u (List.mem_append_left _ mem)) hl
      obtain ⟨inRight, typeRight⟩ := typeExpr_clean fits right
        (fun u mem => resolved u (List.mem_append_right _ mem)) hr
      rw [← typeLeft, ← typeRight] at applies
      simp only [typeExpr, binaryRule_of_typed applies, Diagnostics.hasErrors_append, inLeft,
        inRight, clean_divisorRule]
      exact ⟨rfl, rfl⟩
  | .unary id span op operand, t, resolved, typed => by
    cases typed with
    | unary ho applies =>
      obtain ⟨inOperand, type⟩ := typeExpr_clean fits operand resolved ho
      rw [← type] at applies
      simp only [typeExpr, unaryRule_of_typed applies, Diagnostics.hasErrors_append, inOperand]
      exact ⟨rfl, rfl⟩
  | .call id span callee calleeSpan arguments, t, resolved, typed => by
    obtain ⟨ref, found, known⟩ := resolved ⟨id, callee, calleeSpan⟩ List.mem_cons_self
    change c.resolution.references.get? id = some ref at known
    cases typed with
    | @call _ _ _ _ _ _ ts f means hs types =>
      obtain ⟨inArguments, same⟩ := typeExprs_clean fits arguments
        (fun u mem => resolved u (List.mem_cons_of_mem _ mem)) hs
      have isType := fits.callable found means
      have lengths : f.params.length = (typeExprs c arguments).1.length := by
        rw [← types, ← same, List.length_map]
      have none := argumentRule_of_types callee 1 f.params (typeExprs c arguments).1
        (same.trans types)
      simp only [typeExpr, known, callRule, isType, Ty.isError, lengths, none,
        Diagnostics.hasErrors_append, inArguments]
      exact ⟨rfl, rfl⟩
  | .assignment id span target targetSpan value, t, resolved, typed => by
    obtain ⟨ref, found, known⟩ := resolved ⟨id, target, targetSpan⟩
      (List.mem_append_right _ (List.mem_singleton_self _))
    change c.resolution.references.get? id = some ref at known
    cases typed with
    | assignment hv means =>
      obtain ⟨inValue, type⟩ := typeExpr_clean fits value
        (fun u mem => resolved u (List.mem_append_left _ mem)) hv
      obtain ⟨isVariable, isType, isValue⟩ := fits.variable found means
      simp only [typeExpr, known, assignmentRule, isVariable, isType, isError_of_isValue isValue,
        type, mismatch_self, Diagnostics.hasErrors_append, inValue]
      exact ⟨rfl, rfl⟩

theorem typeExprs_clean (fits : Γ.Fits scope tree c) :
    ∀ (es : List Expr) {ts : List Typed.Expr},
      Resolved c.resolution tree scope (Expr.nameUsesAll es) →
      TypeSystem.ExprsTyped IsValue Γ.environment es ts →
      Diagnostics.hasErrors (typeExprs c es).2 = false ∧
        (typeExprs c es).1.map Typed.Expr.type = ts.map Typed.Expr.type
  | [], ts, _, typed => by
    cases typed
    exact ⟨rfl, rfl⟩
  | e :: es, ts, resolved, typed => by
    cases typed with
    | cons first rest =>
      obtain ⟨inFirst, type⟩ := typeExpr_clean fits e
        (fun u mem => resolved u (List.mem_append_left _ mem)) first
      obtain ⟨inRest, types⟩ := typeExprs_clean fits es
        (fun u mem => resolved u (List.mem_append_right _ mem)) rest
      simp only [typeExprs, Diagnostics.hasErrors_append, inFirst, inRest, List.map_cons, type,
        types]
      exact ⟨rfl, trivial⟩

end

/-! ## Agreement -/

/-- The resolver and the checker have got to one place, no error was found, and nobody cancels. -/
structure CleanStep (R : Resolution) (Γ : Context) (scope : ScopeId) (r : Resolver) (k : Checker) :
    Prop extends InStep R Γ scope r k where
  clean : k.session.hasErrors = false
  uncancelled : k.session.Uncancelled

/-- No error was found exactly if the rules hold for some typed tree, and then they hold for the
one that is given. -/
structure InAgreement {α : Type} (s : Session) (typed : α → Prop) (given : α) : Prop where
  sound : s.hasErrors = false → typed given
  complete : ∀ t, typed t → s.hasErrors = false

/-- Agreement on two things one after the other; the second is only looked at if there was no error
in the first. -/
theorem InAgreement.both {α β : Type} {s s' : Session} {typed : α → Prop} {typed' : β → Prop}
    {given : α} {given' : β} (first : InAgreement s typed given) (leads : s.Leads s')
    (second : s.hasErrors = false → InAgreement s' typed' given') :
    InAgreement s' (fun t : α × β => typed t.1 ∧ typed' t.2) (given, given') :=
  ⟨fun clean => ⟨first.sound (leads.clean clean), (second (leads.clean clean)).sound clean⟩,
    fun t h => (second (first.complete t.1 h.1)).complete t.2 h.2⟩

namespace CleanStep

variable {R : Resolution} {r : Resolver} {k : Checker} {e : Expr}

theorem expr (h : CleanStep R Γ scope r k) (distinct : e.preorder.Nodup)
    (settled : Settled R e.preorder (r.resolveExpr scope e)) :
    InAgreement (k.expr e).2.session (TypeSystem.ExprTyped IsValue Γ.environment e)
      (k.expr e).1 := by
  refine ⟨fun clean => (h.toInStep.expr distinct settled clean).hasTypes, fun t typed => ?_⟩
  change (k.session.recordAll _).hasErrors = false
  rw [Session.hasErrors_recordAll, h.clean]
  exact (typeExpr_clean h.fits e (h.resolved distinct settled) typed).1

/-- An expression whose type has to satisfy a condition, which a rule complains about. -/
theorem checked (h : CleanStep R Γ scope r k) (distinct : e.preorder.Nodup)
    (settled : Settled R e.preorder (r.resolveExpr scope e)) (condition : Ty → Prop)
    (rule : Typed.Expr → List Diagnostic)
    (same : ∀ t : Typed.Expr, t.type.isError = false →
      (Diagnostics.hasErrors (rule t) = false ↔ condition t.type)) :
    InAgreement ((k.expr e).2.session.recordAll (rule (k.expr e).1))
      (fun t => TypeSystem.ExprTyped IsValue Γ.environment e t ∧ condition t.type)
      (k.expr e).1 := by
  have agrees := h.expr distinct settled
  have sane := fun clean => (h.toInStep.expr distinct settled clean).noError
  constructor
  · intro clean
    rw [Session.hasErrors_recordAll, Bool.or_eq_false_iff] at clean
    exact ⟨agrees.sound clean.1, (same _ (sane clean.1)).1 clean.2⟩
  · rintro t ⟨typed, satisfied⟩
    have clean := agrees.complete t typed
    rw [← ((agrees.sound clean).unique typed).1] at satisfied
    rw [Session.hasErrors_recordAll, clean, (same _ (sane clean)).2 satisfied]
    rfl

end CleanStep

end MiniLang.Semantics
