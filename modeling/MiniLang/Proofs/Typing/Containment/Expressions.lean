import MiniLang.Proofs.Session.Progress
import MiniLang.Proofs.Typing.Nodes
import MiniLang.Typing.Statement

/-!
# Errors in the types of expressions are contained

An expression has the type of a result, unless there is an excuse for it: an error that was recorded
before, or one that is found in the expression itself (`Ty.Excused`, `ExcuseAfter`). Each rule keeps
this if it is so for what the rule depends on (`Outcome`), and shows types of results only, since it
keeps silent where an operand has an excuse. What a name refers to is given (`Context.Means`).
-/

set_option autoImplicit false

namespace MiniLang

/-! ## Types and excuses -/

namespace Ty

variable {excuse excuse' : Prop} {type : Ty}

/-- Whether a type is one of results: of numbers, of truth values, or of nothing. -/
def isResult : Ty → Bool
  | int | bool | unit => true
  | function _ _ | unknown | error => false

/-- The types of results as messages show them. -/
def resultTexts : List String := ["int", "bool", "unit"]

/-- A type is one of results, or it is the error for which there is an excuse. -/
def Excused (excuse : Prop) (type : Ty) : Prop := type.isResult = true ∨ type = error ∧ excuse

theorem text_mem_resultTexts (h : type.isResult = true) : type.text ∈ resultTexts := by
  cases type with
  | int | bool | unit => decide
  | _ => cases h

theorem pair_subset_resultTexts {other : Ty} (h : type.isResult = true)
    (h' : other.isResult = true) : [type.text, other.text] ⊆ resultTexts :=
  List.cons_subset.2 ⟨text_mem_resultTexts h,
    List.cons_subset.2 ⟨text_mem_resultTexts h', List.nil_subset _⟩⟩

theorem isResult_ofName (name : TypeName) : (ofName name).isResult = true := by
  cases name <;> rfl

theorem isResult_ofReturn (type : Option WrittenType) : (ofReturn type).isResult = true := by
  cases type with
  | none => rfl
  | some type => exact isResult_ofName type.name

namespace Excused

theorem result (h : type.isResult = true) : type.Excused excuse := .inl h

theorem error (h : excuse) : Excused excuse error := .inr ⟨rfl, h⟩

theorem mono (h : type.Excused excuse) (imp : excuse → excuse') : type.Excused excuse' :=
  h.imp_right fun error => ⟨error.1, imp error.2⟩

/-- Where a type is an error, there is an excuse. -/
theorem of_isError (h : type.Excused excuse) (isError : type.isError = true) : excuse := by
  rcases h with isResult | ⟨-, excuse⟩
  · cases type with
    | int | bool | unit => cases isError
    | _ => cases isResult
  · exact excuse

theorem isResult (h : type.Excused excuse) (sane : ¬type.isError = true) :
    type.isResult = true := by
  rcases h with isResult | ⟨rfl, -⟩
  · exact isResult
  · exact absurd rfl sane

theorem ne_unknown (h : type.Excused excuse) : type ≠ unknown := by
  rintro rfl
  rcases h with isResult | ⟨error, -⟩
  · cases isResult
  · cases error

end Excused

end Ty

/-- The types that a problem shows: what is expected, what is found, and what operands have. -/
def Problem.shownTypes : Problem → List String
  | .typeMismatch expected found => [expected, found]
  | .argumentTypeMismatch _ _ expected found => [expected, found]
  | .invalidOperands _ operands => operands
  | _ => []

/-- All types that a problem shows are types of results. -/
def Problem.Clear (p : Problem) : Prop := p.shownTypes ⊆ Ty.resultTexts

/-- All types that diagnostics show are types of results. -/
def Diagnostics.Clear (ds : List Diagnostic) : Prop := ∀ d ∈ ds, d.problem.Clear

namespace Diagnostics.Clear

variable {ds ds' : List Diagnostic}

theorem nil : Clear [] := List.forall_mem_nil _

theorem append (h : Clear ds) (h' : Clear ds') : Clear (ds ++ ds') :=
  List.forall_mem_append.2 ⟨h, h'⟩

theorem reported {problems : List Problem} (h : ∀ p ∈ problems, p.Clear) (span : Span) :
    Clear (Typing.reported problems span) := by
  intro d mem
  obtain ⟨p, there, rfl⟩ := List.mem_map.1 mem
  exact h p there

/-- A problem that shows no types. -/
theorem single {p : Problem} (h : p.shownTypes = []) (span : Span) :
    Clear (Typing.reported [p] span) := by
  refine .reported (List.forall_mem_singleton.2 ?_) span
  rw [Problem.Clear, h]
  exact List.nil_subset _

end Diagnostics.Clear

namespace Typing

open Diagnostics (Clear)

variable {excuse excuse' : Prop} {type : Ty} {ds ds' : List Diagnostic} {c : Context}

/-- There was an excuse before, or the given diagnostics make one. -/
def ExcuseAfter (excuse : Prop) (ds : List Diagnostic) : Prop :=
  excuse ∨ Diagnostics.hasErrors ds = true

theorem ExcuseAfter.mono (h : ExcuseAfter excuse ds) (sub : ds ⊆ ds') :
    ExcuseAfter excuse ds' :=
  h.imp_right fun errors => List.any_eq_true.2 <| by
    obtain ⟨d, mem, isError⟩ := List.any_eq_true.1 errors
    exact ⟨d, sub mem, isError⟩

theorem excuseAfter_append :
    ExcuseAfter (ExcuseAfter excuse ds) ds' = ExcuseAfter excuse (ds ++ ds') := by
  unfold ExcuseAfter
  rw [Diagnostics.hasErrors_append, Bool.or_eq_true, or_assoc]

theorem ExcuseAfter.left (h : ExcuseAfter excuse ds) : ExcuseAfter excuse (ds ++ ds') :=
  h.mono (List.subset_append_left ..)

theorem ExcuseAfter.right (h : ExcuseAfter excuse ds') : ExcuseAfter excuse (ds ++ ds') :=
  h.mono (List.subset_append_right ..)

/-! ## Rules -/

/-- What a rule gives: a type, and diagnostics that excuse it and show types of results only. -/
structure Outcome (excuse : Prop) (type : Ty) (ds : List Diagnostic) : Prop where
  type : type.Excused (ExcuseAfter excuse ds)
  clear : Clear ds

namespace Outcome

theorem silent (h : type.Excused excuse) : Outcome excuse type [] := ⟨h.mono .inl, .nil⟩

/-- A rule that complains gives an error. -/
theorem error {p : Problem} (isError : p.isWarning = false) (clear : p.Clear) (span : Span) :
    Outcome excuse .error (reported [p] span) := by
  refine ⟨.error (.inr ?_), .reported (List.forall_mem_singleton.2 clear) span⟩
  change Diagnostics.hasErrors [.of p span] = true
  rw [Diagnostics.hasErrors_of, isError]
  rfl

theorem append (h : Outcome excuse type ds) (clear : Clear ds') :
    Outcome excuse type (ds ++ ds') := ⟨h.type.mono ExcuseAfter.left, h.clear.append clear⟩

end Outcome

/-- A complaint about the type of a value shows a type only if it is one of results. -/
theorem clear_mismatch {expected found : Ty} (needed : expected.isResult = true)
    (given : found.Excused excuse) : ∀ p ∈ mismatch expected found, p.Clear := by
  unfold mismatch
  split
  · exact List.forall_mem_nil _
  next differs =>
    rw [Bool.or_eq_true, not_or] at differs
    exact List.forall_mem_singleton.2
      (Ty.pair_subset_resultTexts needed (given.isResult differs.1))

/-- What the symbol of a name can be: nothing, for which there is an excuse, a function between
results, or something that has a value. -/
inductive Context.Means (c : Context) (excuse : Prop) : Option SymbolRef → Prop
  | nothing (h : excuse) : Means c excuse none
  | function {ref : SymbolRef} {params : List Ty} {result : Ty}
      (isFunction : c.isFunction ref = true) (type : c.symbolType ref = .function params result)
      (takes : ∀ p ∈ params, p.isResult = true) (gives : result.isResult = true) :
      Means c excuse (some ref)
  | value {ref : SymbolRef} (isValue : ¬c.isFunction ref = true)
      (type : (c.symbolType ref).Excused excuse) : Means c excuse (some ref)

namespace Context.Means

variable {symbol : Option SymbolRef}

theorem mono (h : c.Means excuse symbol) (imp : excuse → excuse') : c.Means excuse' symbol := by
  cases h with
  | nothing h => exact .nothing (imp h)
  | function isFunction type takes gives => exact .function isFunction type takes gives
  | value isValue type => exact .value isValue (type.mono imp)

theorem unresolved (h : c.Means excuse symbol) (isNone : symbol.isNone = true) : excuse := by
  cases h with
  | nothing h => exact h
  | function | value => cases isNone

end Context.Means

section

variable {symbol : Option SymbolRef}

theorem outcome_nameRule (means : c.Means excuse symbol) (name : String) (span : Span) :
    Outcome excuse (nameRule c name symbol).1 (reported (nameRule c name symbol).2 span) := by
  cases means with
  | nothing h => exact .silent (.error h)
  | function isFunction =>
    rw [nameRule, if_pos isFunction]
    exact .error rfl (List.nil_subset _) span
  | value isValue type =>
    rw [nameRule, if_neg isValue]
    exact .silent type

theorem isResult_binaryType {op : BinaryOp} {left right : Ty}
    (h : binaryType op left right = some type) : type.isResult = true := by
  unfold binaryType at h
  split at h
  · split at h
    · cases h
      rfl
    · split at h
      · cases h
        rfl
      · cases h
  · split at h
    · cases h
      rfl
    · cases h
  · cases h

theorem outcome_binaryRule (op : BinaryOp) {left right : Ty} (atLeft : left.Excused excuse)
    (atRight : right.Excused excuse) (span : Span) :
    Outcome excuse (binaryRule op left right).1 (reported (binaryRule op left right).2 span) := by
  unfold binaryRule
  split
  next wrong =>
    rw [Bool.or_eq_true] at wrong
    exact .silent (.error (wrong.elim atLeft.of_isError atRight.of_isError))
  next sane =>
    rw [Bool.or_eq_true, not_or] at sane
    split
    next applies => exact .silent (.result (isResult_binaryType applies))
    next =>
      refine .error rfl ?_ span
      exact Ty.pair_subset_resultTexts (atLeft.isResult sane.1) (atRight.isResult sane.2)

theorem outcome_unaryRule (op : UnaryOp) {operand : Ty} (given : operand.Excused excuse)
    (span : Span) :
    Outcome excuse (unaryRule op operand).1 (reported (unaryRule op operand).2 span) := by
  unfold unaryRule
  split
  next wrong => exact .silent (.error (given.of_isError wrong))
  next sane =>
    split
    · exact .silent (.result rfl)
    · exact .silent (.result rfl)
    · refine .error rfl ?_ span
      exact List.cons_subset.2 ⟨Ty.text_mem_resultTexts (given.isResult sane), List.nil_subset _⟩

theorem clear_divisorRule (op : BinaryOp) (right : Typed.Expr) (span : Span) :
    Clear (reported (divisorRule op right) span) := by
  unfold divisorRule
  split
  · exact .single rfl span
  · exact .nil

theorem clear_argumentRule (callee : String) : ∀ (position : Nat) {params : List Ty}
    {arguments : List Typed.Expr}, (∀ p ∈ params, p.isResult = true) →
    (∀ a ∈ arguments, a.type.Excused excuse) → Clear (argumentRule callee position params arguments)
  | _, [], _, _, _ => by
    rw [argumentRule]
    · exact .nil
    · rintro _ _ _ _ ⟨⟩
  | _, _ :: _, [], _, _ => .nil
  | position, param :: params, argument :: arguments, takes, given => by
    obtain ⟨needed, takes⟩ := List.forall_mem_cons.1 takes
    obtain ⟨here, given⟩ := List.forall_mem_cons.1 given
    rw [argumentRule]
    refine .append (.reported ?_ _) (clear_argumentRule callee (position + 1) takes given)
    split
    · exact List.forall_mem_nil _
    next differs =>
      rw [Bool.or_eq_true, not_or] at differs
      exact List.forall_mem_singleton.2
        (Ty.pair_subset_resultTexts needed (here.isResult differs.1))

theorem outcome_callRule (means : c.Means excuse symbol) (callee : String)
    (calleeSpan span : Span) {arguments : List Typed.Expr}
    (given : ∀ a ∈ arguments, a.type.Excused excuse) :
    Outcome excuse (callRule c callee calleeSpan span arguments symbol).1
      (callRule c callee calleeSpan span arguments symbol).2 := by
  cases means with
  | nothing h => exact .silent (.error h)
  | function _ type takes gives =>
    simp only [callRule, type, Ty.isError, Bool.false_eq_true, if_false]
    split
    · exact ⟨.result gives, clear_argumentRule callee 1 takes given⟩
    · exact ⟨.result gives, .single rfl span⟩
  | @value ref _ type =>
    unfold callRule
    dsimp only
    split
    next wrong => exact .silent (.error (type.of_isError wrong))
    next sane =>
      have isResult := type.isResult sane
      split
      next isFunction =>
        rw [isFunction] at isResult
        cases isResult
      next => exact .error rfl (List.nil_subset _) calleeSpan

theorem outcome_assignmentRule (means : c.Means excuse symbol) (target : String)
    (targetSpan span : Span) {value : Ty} (given : value.Excused excuse) :
    Outcome excuse (assignmentRule c target targetSpan span value symbol).1
      (assignmentRule c target targetSpan span value symbol).2 := by
  cases means with
  | nothing h => exact .silent (.error h)
  | function isFunction =>
    rw [assignmentRule, if_pos isFunction]
    exact .error rfl (List.nil_subset _) targetSpan
  | value isValue type =>
    rw [assignmentRule, if_neg isValue]
    refine ⟨type.mono .inl, ?_⟩
    dsimp only
    split
    · exact .nil
    next sane => exact .reported (clear_mismatch (type.isResult sane) given) span

theorem outcome_declarationRule (name : String) (declared : Option WrittenType) {value : Ty}
    (given : value.Excused excuse) (span : Span) :
    Outcome excuse (declarationRule name declared value).1
      (reported (declarationRule name declared value).2 span) := by
  cases declared with
  | some written =>
    have isResult := Ty.isResult_ofName written.name
    exact ⟨.result isResult, .reported (clear_mismatch isResult given) span⟩
  | none =>
    rw [declarationRule]
    split
    · exact .error rfl (List.nil_subset _) span
    · exact .silent given

theorem clear_returnRule {expected : Option Ty} (needed : ∀ type ∈ expected, type.isResult = true)
    {value : Option Typed.Expr} (given : ∀ e ∈ value, e.type.Excused excuse) (span : Span) :
    Clear (returnRule expected span value) := by
  have nothing : Ty.Excused excuse .unit := .result rfl
  unfold returnRule
  split
  · exact .nil
  · exact .reported (clear_mismatch (needed _ rfl) (given _ rfl)) _
  · exact .reported (clear_mismatch (needed _ rfl) nothing) _

theorem clear_functionRule (header : FunctionHeader) (body : Typed.Block) :
    Clear (functionRule header body) := by
  unfold functionRule
  split
  · exact .single rfl _
  · exact .nil

end

end Typing

/-! ## Expressions -/

/-- An expression has the type of a result, and a name that it holds itself means something, unless
there is an excuse. -/
structure Typed.Expr.Contained (excuse : Prop) (e : Typed.Expr) : Prop where
  type : e.type.Excused excuse
  resolved : e.unresolved = true → excuse

theorem Typed.Expr.Contained.mono {excuse excuse' : Prop} {e : Typed.Expr} (h : e.Contained excuse)
    (imp : excuse → excuse') : e.Contained excuse' :=
  ⟨h.type.mono imp, imp ∘ h.resolved⟩

namespace Typing

open Diagnostics (Clear)

variable {excuse : Prop} {c : Context} {t : Typed.Expr} {ds ds' : List Diagnostic}

/-- An expression that was typed, and what was found meanwhile: it excuses everything in the
expression. -/
structure ExprOutcome (excuse : Prop) (t : Typed.Expr) (ds : List Diagnostic) : Prop where
  nodes : ∀ n ∈ t.nodes, n.Contained (ExcuseAfter excuse ds)
  clear : Clear ds

theorem ExprOutcome.type (h : ExprOutcome excuse t ds) :
    t.type.Excused (ExcuseAfter excuse ds) := (h.nodes t t.self_mem_nodes).type

/-- An expression that has nothing below it. -/
theorem ExprOutcome.leaf (form : t.nodes = [t]) (rule : Outcome excuse t.type ds)
    (resolved : t.unresolved = true → excuse) : ExprOutcome excuse t ds := by
  refine ⟨?_, rule.clear⟩
  rw [form]
  exact List.forall_mem_singleton.2 ⟨rule.type, .inl ∘ resolved⟩

/-- An expression whose type comes from a rule, after what is below it. -/
theorem ExprOutcome.node {below : List Typed.Expr} (form : t.nodes = t :: below)
    (inside : ∀ n ∈ below, n.Contained (ExcuseAfter excuse ds)) (clear : Clear ds)
    (rule : Outcome (ExcuseAfter excuse ds) t.type ds') (resolved : t.unresolved = true → excuse) :
    ExprOutcome excuse t (ds ++ ds') := by
  have whole := rule.type
  rw [excuseAfter_append] at whole
  refine ⟨?_, clear.append rule.clear⟩
  rw [form]
  exact List.forall_mem_cons.2 ⟨⟨whole, .inl ∘ resolved⟩, fun n mem =>
    (inside n mem).mono ExcuseAfter.left⟩

/-- All that is asked about the names in an expression. -/
abbrev Meaningful (c : Context) (excuse : Prop) (uses : List NameUse) : Prop :=
  ∀ u ∈ uses, c.Means excuse (c.resolution.references.get? u.id)

mutual

/-- Everything in an expression is contained, by what was recorded before and by what is found in
the expression. -/
theorem outcome_typeExpr : ∀ e : Expr, Meaningful c excuse e.nameUses →
    ExprOutcome excuse (typeExpr c e).1 (typeExpr c e).2
  | .literal _ _ value, _ =>
    have isResult : (literalType value).isResult = true := by cases value <;> rfl
    .leaf rfl (.silent (.result isResult)) (by rintro ⟨⟩)
  | .var _ span name, means => by
    have here := List.forall_mem_singleton.1 means
    exact .leaf rfl (outcome_nameRule here name span) here.unresolved
  | .binary _ span op left right, means => by
    obtain ⟨inLeft, inRight⟩ := List.forall_mem_append.1 means
    have atLeft := outcome_typeExpr left inLeft
    have atRight := outcome_typeExpr right inRight
    have inside : ∀ n ∈ (typeExpr c left).1.nodes ++ (typeExpr c right).1.nodes,
        n.Contained (ExcuseAfter excuse ((typeExpr c left).2 ++ (typeExpr c right).2)) :=
      List.forall_mem_append.2 ⟨fun n mem => (atLeft.nodes n mem).mono ExcuseAfter.left,
        fun n mem => (atRight.nodes n mem).mono ExcuseAfter.right⟩
    have rule := (outcome_binaryRule op (atLeft.type.mono ExcuseAfter.left)
      (atRight.type.mono ExcuseAfter.right) span).append
      (clear_divisorRule op (typeExpr c right).1 (typeExpr c right).1.span)
    simp only [typeExpr]
    rw [List.append_assoc]
    exact .node rfl inside (atLeft.clear.append atRight.clear) rule (by rintro ⟨⟩)
  | .unary _ span op operand, means => by
    have inside := outcome_typeExpr operand means
    exact .node rfl inside.nodes inside.clear (outcome_unaryRule op inside.type span)
      (by rintro ⟨⟩)
  | .call _ span callee calleeSpan arguments, means => by
    obtain ⟨here, others⟩ := List.forall_mem_cons.1 means
    obtain ⟨inside, clear⟩ := outcome_typeExprs arguments others
    have given : ∀ a ∈ (typeExprs c arguments).1, a.type.Excused _ := fun a mem =>
      (inside a (Typed.Expr.mem_nodesAll mem)).type
    exact .node rfl inside clear (outcome_callRule (here.mono .inl) callee calleeSpan span given)
      here.unresolved
  | .assignment _ span target targetSpan value, means => by
    obtain ⟨inValue, last⟩ := List.forall_mem_append.1 means
    have here := List.forall_mem_singleton.1 last
    have inside := outcome_typeExpr value inValue
    exact .node rfl inside.nodes inside.clear
      (outcome_assignmentRule (here.mono .inl) target targetSpan span inside.type) here.unresolved

theorem outcome_typeExprs : ∀ es : List Expr, Meaningful c excuse (Expr.nameUsesAll es) →
    (∀ n ∈ Typed.Expr.nodesAll (typeExprs c es).1,
        n.Contained (ExcuseAfter excuse (typeExprs c es).2)) ∧ Clear (typeExprs c es).2
  | [], _ => ⟨List.forall_mem_nil _, .nil⟩
  | e :: es, means => by
    obtain ⟨here, others⟩ := List.forall_mem_append.1 means
    have first := outcome_typeExpr e here
    obtain ⟨rest, clear⟩ := outcome_typeExprs es others
    exact ⟨List.forall_mem_append.2 ⟨fun n mem => (first.nodes n mem).mono ExcuseAfter.left,
      fun n mem => (rest n mem).mono ExcuseAfter.right⟩, first.clear.append clear⟩

end

end Typing

end MiniLang
