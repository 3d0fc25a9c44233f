import MiniLang.Proofs.Typing.Scopes

/-!
# Typing expressions gives typed forms

Where the checker finds no error in an expression whose names mean what the context says, the typed
expression that it gives is a typed form of it (`typeExpr_typed`). For each rule a lemma says what
it means that the rule found no error.
-/

set_option autoImplicit false

namespace MiniLang.Semantics

open Typing hiding Context

/-! ## What rules find -/

theorem hasErrors_reported (problems : List Problem) (span : Span) :
    Diagnostics.hasErrors (reported problems span) = problems.any (!·.isWarning) := by
  simp [Diagnostics.hasErrors, reported, Function.comp_def, Diagnostic.isError_of]

/-- A problem that is no warning is an error wherever it is reported. -/
theorem errors_reported {problem : Problem} (isError : problem.isWarning = false) (span : Span) :
    Diagnostics.hasErrors (reported [problem] span) = true := by
  rw [hasErrors_reported, List.any_cons, isError]
  rfl

/-- A test that somebody would complain about if it failed. -/
theorem of_reported {test : Prop} [Decidable test] {problem : Problem} {span : Span}
    (isError : problem.isWarning = false)
    (clean : Diagnostics.hasErrors (reported (if test then [] else [problem]) span) = false) :
    test := by
  by_contra fails
  rw [if_neg fails, errors_reported isError] at clean
  cases clean

/-- Both parts of what was found hold no errors. -/
theorem clean_append {ds es : List Diagnostic} (h : Diagnostics.hasErrors (ds ++ es) = false) :
    Diagnostics.hasErrors ds = false ∧ Diagnostics.hasErrors es = false := by
  rw [Diagnostics.hasErrors_append, Bool.or_eq_false_iff] at h
  exact h

/-- A value fits a type, if nothing is wrong with the value itself. -/
theorem eq_of_mismatch {expected found : Ty} {span : Span} (sane : found.isError = false)
    (clean : Diagnostics.hasErrors (reported (mismatch expected found) span) = false) :
    found = expected := by
  have test := of_reported rfl clean
  rw [sane] at test
  simpa using test

/-- The arguments of a call have the types of the parameters. -/
theorem types_of_argumentRule (callee : String) :
    ∀ (position : Nat) (params : List Ty) (arguments : List Typed.Expr),
      params.length = arguments.length → (∀ a ∈ arguments, a.type.isError = false) →
      Diagnostics.hasErrors (argumentRule callee position params arguments) = false →
        arguments.map Typed.Expr.type = params
  | _, [], [], _, _, _ => rfl
  | position, param :: params, a :: arguments, lengths, sane, clean => by
    obtain ⟨first, rest⟩ := clean_append clean
    have test := of_reported rfl first
    rw [sane a List.mem_cons_self] at test
    have fits : a.type = param := by simpa using test
    rw [List.map_cons, fits, types_of_argumentRule callee (position + 1) params arguments
      (Nat.succ.inj lengths) (fun a mem => sane a (List.mem_cons_of_mem _ mem)) rest]

theorem type_of_binaryRule {op : BinaryOp} {left right : Ty} {span : Span}
    (sane : left.isError = false) (sane' : right.isError = false)
    (clean : Diagnostics.hasErrors (reported (binaryRule op left right).2 span) = false) :
    binaryType op left right = some (binaryRule op left right).1 := by
  unfold binaryRule at clean ⊢
  rw [sane, sane'] at clean ⊢
  cases applies : binaryType op left right with
  | some type => rfl
  | none =>
    rw [applies] at clean
    have errors : Diagnostics.hasErrors
        (reported [.invalidOperands op.symbol [left.text, right.text]] span) = true :=
      errors_reported rfl span
    cases errors.symm.trans clean

theorem type_of_unaryRule {op : UnaryOp} {operand : Ty} {span : Span}
    (sane : operand.isError = false)
    (clean : Diagnostics.hasErrors (reported (unaryRule op operand).2 span) = false) :
    operand = operandType op ∧ (unaryRule op operand).1 = operandType op := by
  unfold unaryRule at clean ⊢
  rw [sane] at clean ⊢
  cases op <;> cases operand <;> first
    | exact ⟨rfl, rfl⟩
    | exact absurd clean (by rw [if_neg Bool.false_ne_true, errors_reported rfl]; decide)

/-- A call of a function. -/
theorem type_of_callRule {c : Typing.Context} {callee : String} {calleeSpan span : Span}
    {arguments : List Typed.Expr} {ref : SymbolRef} {params : List Ty} {result : Ty}
    (isFunction : c.symbolType ref = .function params result)
    (sane : ∀ a ∈ arguments, a.type.isError = false)
    (clean : Diagnostics.hasErrors
      (callRule c callee calleeSpan span arguments (some ref)).2 = false) :
    arguments.map Typed.Expr.type = params ∧
      (callRule c callee calleeSpan span arguments (some ref)).1 = result := by
  simp only [callRule, isFunction, Ty.isError] at clean ⊢
  by_cases lengths : params.length = arguments.length
  · simp only [lengths] at clean ⊢
    exact ⟨types_of_argumentRule callee 1 params arguments lengths sane clean, rfl⟩
  · simp only [if_neg lengths] at clean
    have errors : Diagnostics.hasErrors
        (reported [.arityMismatch callee params.length arguments.length] span) = true :=
      errors_reported rfl span
    cases errors.symm.trans clean

/-- A call of a variable. -/
theorem errors_of_callRule {c : Typing.Context} {callee : String} {calleeSpan span : Span}
    {arguments : List Typed.Expr} {ref : SymbolRef} (isValue : (c.symbolType ref).isValue = true) :
    Diagnostics.hasErrors (callRule c callee calleeSpan span arguments (some ref)).2 = true := by
  simp only [callRule]
  cases type : c.symbolType ref with
  | int => exact errors_reported rfl _
  | bool => exact errors_reported rfl _
  | _ =>
    rw [type] at isValue
    cases isValue

/-- An assignment to a variable. -/
theorem type_of_assignmentRule {c : Typing.Context} {target : String} {targetSpan span : Span}
    {value : Ty} {ref : SymbolRef} (isVariable : c.isFunction ref = false)
    (isValue : (c.symbolType ref).isValue = true) (sane : value.isError = false)
    (clean : Diagnostics.hasErrors
      (assignmentRule c target targetSpan span value (some ref)).2 = false) :
    value = c.symbolType ref ∧
      (assignmentRule c target targetSpan span value (some ref)).1 = c.symbolType ref := by
  simp only [assignmentRule, isVariable, isError_of_isValue isValue] at clean ⊢
  exact ⟨eq_of_mismatch sane clean, rfl⟩

/-! ## Expressions -/

/-- What the given uses of names refer to was found out. -/
def Resolved (R : Resolution) (tree : ScopeTree) (scope : ScopeId) (uses : List NameUse) : Prop :=
  ∀ u ∈ uses, ∃ ref, tree.lookup scope u.name = some ref ∧ R.references.get? u.id = some ref

theorem ExprsTyped.noError {Γ : Context} :
    ∀ (es : List Expr) {ts : List Typed.Expr}, ExprsTyped Γ es ts →
      ∀ t ∈ ts, t.type.isError = false
  | [], _, h, t, mem => by
    cases h
    cases mem
  | _ :: es, _, h, t, mem => by
    cases h with
    | cons first rest =>
      rcases List.mem_cons.1 mem with rfl | mem
      · exact first.noError
      · exact ExprsTyped.noError es rest t mem

variable {Γ : Context} {scope : ScopeId} {tree : ScopeTree} {c : Typing.Context}

mutual

/-- The typed form that the checker gives for an expression. -/
theorem typeExpr_typed (fits : Γ.Fits scope tree c) :
    ∀ (e : Expr), Resolved c.resolution tree scope e.nameUses →
      Diagnostics.hasErrors (typeExpr c e).2 = false → ExprTyped Γ e (typeExpr c e).1
  | .literal id span value, _, _ => .literal id span value
  | .var id span name, resolved, clean => by
    obtain ⟨ref, found, known⟩ := resolved ⟨id, name, span⟩ (List.mem_singleton_self _)
    change c.resolution.references.get? id = some ref at known
    simp only [typeExpr, known, nameRule] at clean ⊢
    rcases fits.use found with ⟨type, means, isVariable, rfl, isValue⟩ | ⟨f, -, -, isFunction, -⟩
    · rw [isVariable]
      exact .var means isValue
    · rw [isFunction, if_pos rfl, errors_reported rfl] at clean
      cases clean
  | .binary id span op left right, resolved, clean => by
    simp only [typeExpr] at clean ⊢
    obtain ⟨clean, -⟩ := clean_append clean
    obtain ⟨clean, here⟩ := clean_append clean
    obtain ⟨inLeft, inRight⟩ := clean_append clean
    have hl := typeExpr_typed fits left (fun u mem => resolved u (List.mem_append_left _ mem))
      inLeft
    have hr := typeExpr_typed fits right (fun u mem => resolved u (List.mem_append_right _ mem))
      inRight
    exact .binary hl hr (type_of_binaryRule hl.noError hr.noError here)
  | .unary id span op operand, resolved, clean => by
    simp only [typeExpr] at clean ⊢
    obtain ⟨inOperand, here⟩ := clean_append clean
    have ho := typeExpr_typed fits operand resolved inOperand
    obtain ⟨applies, type⟩ := type_of_unaryRule ho.noError here
    rw [type]
    exact .unary ho applies
  | .call id span callee calleeSpan arguments, resolved, clean => by
    obtain ⟨ref, found, known⟩ := resolved ⟨id, callee, calleeSpan⟩ List.mem_cons_self
    change c.resolution.references.get? id = some ref at known
    simp only [typeExpr, known] at clean ⊢
    obtain ⟨inArguments, here⟩ := clean_append clean
    have hs := typeExprs_typed fits arguments
      (fun u mem => resolved u (List.mem_cons_of_mem _ mem)) inArguments
    have sane := ExprsTyped.noError arguments hs
    rcases fits.use found with ⟨type, -, -, rfl, isValue⟩ | ⟨f, free, means, -, isType, result⟩
    · rw [errors_of_callRule isValue] at here
      cases here
    · obtain ⟨types, type⟩ := type_of_callRule isType sane here
      have noError : f.result.isError = false := by
        rcases result with unit | isValue
        · rw [unit]
          rfl
        · exact isError_of_isValue isValue
      rw [type]
      exact .call free means hs types noError
  | .assignment id span target targetSpan value, resolved, clean => by
    obtain ⟨ref, found, known⟩ := resolved ⟨id, target, targetSpan⟩
      (List.mem_append_right _ (List.mem_singleton_self _))
    change c.resolution.references.get? id = some ref at known
    simp only [typeExpr, known] at clean ⊢
    obtain ⟨inValue, here⟩ := clean_append clean
    have hv := typeExpr_typed fits value (fun u mem => resolved u (List.mem_append_left _ mem))
      inValue
    rcases fits.use found with ⟨type, means, isVariable, rfl, isValue⟩ | ⟨f, -, -, isFunction, -⟩
    · obtain ⟨same, type⟩ := type_of_assignmentRule isVariable isValue hv.noError here
      rw [type, ← same]
      rw [← same] at means isValue
      exact .assignment hv means isValue
    · simp only [assignmentRule, isFunction] at here
      have errors : Diagnostics.hasErrors (reported [.notAssignable target] targetSpan) = true :=
        errors_reported rfl targetSpan
      cases errors.symm.trans here

/-- The typed forms that the checker gives for expressions. -/
theorem typeExprs_typed (fits : Γ.Fits scope tree c) :
    ∀ (es : List Expr), Resolved c.resolution tree scope (Expr.nameUsesAll es) →
      Diagnostics.hasErrors (typeExprs c es).2 = false → ExprsTyped Γ es (typeExprs c es).1
  | [], _, _ => .nil
  | e :: es, resolved, clean => by
    simp only [typeExprs] at clean ⊢
    obtain ⟨inFirst, inRest⟩ := clean_append clean
    exact .cons
      (typeExpr_typed fits e (fun u mem => resolved u (List.mem_append_left _ mem)) inFirst)
      (typeExprs_typed fits es (fun u mem => resolved u (List.mem_append_right _ mem)) inRest)

end

/-- Expressions with typed forms are numbers or truth values, or calls that give nothing. -/
theorem ExprTyped.isValue {e : Expr} {t : Typed.Expr} (h : ExprTyped Γ e t)
    (fits : Γ.Fits scope tree c) (notUnit : t.type ≠ .unit) : t.type.isValue = true := by
  cases h with
  | literal _ _ value => cases value <;> rfl
  | var _ isValue => exact isValue
  | binary _ _ applies => exact isValue_of_binaryType applies
  | @unary _ _ op => exact isValue_operandType op
  | call free known => exact (fits.result free known).resolve_left notUnit
  | assignment _ _ isValue => exact isValue

end MiniLang.Semantics
