import MiniLang.Proofs.Lowering.Naming
import MiniLang.Proofs.Lowering.Shapes
import MiniLang.Proofs.Typing.Nodes

/-!
# Which programs have code

Code generation looks at every expression and every statement of a typed program, also at code that
is never reached, and it succeeds exactly if all of them are sound (`exists_generate_iff`): all
statements could be read, no expression has an error as its type, and every name that is used, every
variable and every parameter has a symbol. What folding leaves out are written-out values, which are
always sound. Nobody asks for the symbol of a function that is declared.
-/

set_option autoImplicit false

namespace MiniLang

namespace Typed

/-- An expression has a type, and the name that it holds itself means something. -/
structure Expr.Sound (e : Expr) : Prop where
  typed : e.type.isError = false
  resolved : e.unresolved = false

/-- A statement could be read, the variable and the parameters that it declares have symbols, and
all its expressions are sound. -/
structure Stmt.Sound (s : Stmt) : Prop where
  readable : s.isError = false
  declared : s.undeclared = false
  exprs : ∀ e ∈ s.ownExprs, ∀ n ∈ e.nodes, n.Sound

/-- The values that are written out in an expression have a type. -/
def Expr.PlainLiterals (e : Expr) : Prop :=
  ∀ n ∈ e.nodes, n.literal?.isSome = true → n.type.isError = false

/-- A statement that stands somewhere, with values that have types. -/
structure Stmt.Regular (s : Stmt) : Prop where
  span : s.span.Valid
  literals : ∀ e ∈ s.ownExprs, e.PlainLiterals

/-- Statements that are regular, and so is all that is in them, where there are no functions. -/
def Stmt.Inner (ss : List Stmt) : Prop := ∀ s ∈ ss, s.Regular ∧ s.isFunction = false

/-- A regular statement of the top level, where a function may stand too. -/
inductive Stmt.AtTop : Stmt → Prop
  | inner {s : Stmt} (h : Inner s.preorder) : AtTop s
  | function {span : Span} {header : FunctionHeader} {body : Block} (here : span.Valid)
      (h : Inner (inBlock body)) : AtTop (.function span header body)

theorem Expr.PlainLiterals.sound {e : Expr} (h : e.PlainLiterals) {value : Literal}
    (isLiteral : e.literal? = some value) : ∀ n ∈ e.nodes, n.Sound := by
  cases e with
  | literal info value =>
    exact List.forall_mem_singleton.2 ⟨h _ (List.mem_singleton_self _) rfl, rfl⟩
  | _ => cases isLiteral

end Typed

namespace Lowering

variable {folding : Bool}

/-- Only a name that means something has a place. -/
theorem placeOf_ok_iff {symbol : Option SymbolRef} {name : String} {span : Span} :
    (∃ place, placeOf symbol name span = .ok place) ↔ symbol.isNone = false := by
  cases symbol with
  | none => simp [placeOf]
  | some ref => exact ⟨fun _ => rfl, fun _ => ⟨_, placeOf_eq ref name span⟩⟩

theorem exists_folded {op : BinaryOp} {left right : Typed.Expr} {value : Int}
    (h : folded? folding op left right = some value) :
    (∃ l, left.literal? = some l) ∧ ∃ r, right.literal? = some r := by
  simp only [folded?, Option.bind_eq_bind, Option.bind_eq_some_iff] at h
  obtain ⟨-, -, l, isLeft, r, isRight, -⟩ := h
  exact ⟨⟨l, isLeft⟩, r, isRight⟩

/-! ## Expressions -/

/-- An operator that is not folded evaluates its operands one after the other, or may skip the right
one, but it has code for both. -/
theorem exists_lowerExpr_binary {info : Typed.Info} {op : BinaryOp} {left right : Typed.Expr}
    {f : Fresh} (h : folded? folding op left right = none) :
    (∃ v f', lowerExpr folding (.binary info op left right) f = .ok (v, f')) ↔
      info.type.isError = false ∧ ∃ l fl r fr,
        lowerExpr folding left (if op.isLogical then { f with label := f.label + 1 } else f) =
          .ok (l, fl) ∧
        lowerExpr folding right fl = .ok (r, fr) := by
  cases logical : op.isLogical with
  | true =>
    constructor
    · rintro ⟨v, f', lowered⟩
      obtain ⟨typed, l, fl, r, fr, atLeft, atRight, -, -⟩ :=
        (lowerExpr_binary_logical h logical).1 lowered
      exact ⟨typed, l, fl, r, fr, atLeft, atRight⟩
    · rintro ⟨typed, l, fl, r, fr, atLeft, atRight⟩
      exact ⟨_, _, (lowerExpr_binary_logical h logical).2
        ⟨typed, l, fl, r, fr, atLeft, atRight, rfl, rfl⟩⟩
  | false =>
    constructor
    · rintro ⟨v, f', lowered⟩
      obtain ⟨typed, l, fl, r, fr, atLeft, atRight, -, -⟩ :=
        (lowerExpr_binary_strict h logical).1 lowered
      exact ⟨typed, l, fl, r, fr, atLeft, atRight⟩
    · rintro ⟨typed, l, fl, r, fr, atLeft, atRight⟩
      exact ⟨_, _, (lowerExpr_binary_strict h logical).2
        ⟨typed, l, fl, r, fr, atLeft, atRight, rfl, rfl⟩⟩

/-- A call has code for its arguments, whether or not it gives a value. -/
theorem exists_lowerExpr_call {info : Typed.Info} {callee : String} {symbol : Option SymbolRef}
    {arguments : List Typed.Expr} {f : Fresh} :
    (∃ v f', lowerExpr folding (.call info callee symbol arguments) f = .ok (v, f')) ↔
      info.type.isError = false ∧ symbol.isNone = false ∧
        ∃ vs fs, lowerExprs folding arguments f = .ok (vs, fs) := by
  rw [← Option.not_isSome, Bool.not_eq_false']
  by_cases unit : info.type = .unit
  · have typed : info.type.isError = false := by
      rw [unit]
      rfl
    constructor
    · rintro ⟨v, f', lowered⟩
      obtain ⟨resolved, vs, atArguments, -⟩ := (lowerExpr_call_unit unit).1 lowered
      exact ⟨typed, resolved, vs, f', atArguments⟩
    · rintro ⟨-, resolved, vs, fs, atArguments⟩
      exact ⟨_, _, (lowerExpr_call_unit unit).2 ⟨resolved, vs, atArguments, rfl⟩⟩
  · constructor
    · rintro ⟨v, f', lowered⟩
      obtain ⟨typed, resolved, vs, fs, atArguments, -, -⟩ := (lowerExpr_call_value unit).1 lowered
      exact ⟨typed, resolved, vs, fs, atArguments⟩
    · rintro ⟨typed, resolved, vs, fs, atArguments⟩
      exact ⟨_, _, (lowerExpr_call_value unit).2
        ⟨typed, resolved, vs, fs, atArguments, rfl, rfl⟩⟩

mutual

/-- An expression has code if all expressions in it are sound. -/
theorem lowerExpr_ok_iff : ∀ {e : Typed.Expr}, e.PlainLiterals → ∀ f : Fresh,
    (∃ v f', lowerExpr folding e f = .ok (v, f')) ↔ ∀ n ∈ e.nodes, n.Sound
  | .literal info value, _, f => by
    rw [Typed.Expr.nodes, List.forall_mem_singleton]
    constructor
    · rintro ⟨v, f', lowered⟩
      exact ⟨(lowerExpr_literal.1 lowered).1, rfl⟩
    · intro sound
      exact ⟨_, _, lowerExpr_literal.2 ⟨sound.typed, rfl, rfl⟩⟩
  | .var info name symbol, _, f => by
    rw [Typed.Expr.nodes, List.forall_mem_singleton]
    constructor
    · rintro ⟨v, f', lowered⟩
      obtain ⟨typed, place, found, -, -⟩ := lowerExpr_var.1 lowered
      exact ⟨typed, placeOf_ok_iff.1 ⟨place, found⟩⟩
    · intro sound
      obtain ⟨place, found⟩ := placeOf_ok_iff.2 sound.resolved
      exact ⟨_, _, lowerExpr_var.2 ⟨sound.typed, place, found, rfl, rfl⟩⟩
  | .binary info op left right, plain, f => by
    obtain ⟨-, plain⟩ := List.forall_mem_cons.1 plain
    obtain ⟨inLeft, inRight⟩ := List.forall_mem_append.1 plain
    rw [Typed.Expr.nodes, List.forall_mem_cons, List.forall_mem_append]
    cases folded : folded? folding op left right with
    | some value =>
      obtain ⟨⟨l, isLeft⟩, r, isRight⟩ := exists_folded folded
      constructor
      · rintro ⟨v, f', lowered⟩
        exact ⟨⟨((lowerExpr_binary_folded folded).1 lowered).1, rfl⟩,
          Typed.Expr.PlainLiterals.sound inLeft isLeft,
          Typed.Expr.PlainLiterals.sound inRight isRight⟩
      · rintro ⟨sound, -, -⟩
        exact ⟨_, _, (lowerExpr_binary_folded folded).2 ⟨sound.typed, rfl, rfl⟩⟩
    | none =>
      rw [exists_lowerExpr_binary folded]
      constructor
      · rintro ⟨typed, l, fl, r, fr, atLeft, atRight⟩
        exact ⟨⟨typed, rfl⟩, (lowerExpr_ok_iff inLeft _).1 ⟨l, fl, atLeft⟩,
          (lowerExpr_ok_iff inRight _).1 ⟨r, fr, atRight⟩⟩
      · rintro ⟨sound, soundLeft, soundRight⟩
        obtain ⟨l, fl, atLeft⟩ := (lowerExpr_ok_iff inLeft _).2 soundLeft
        obtain ⟨r, fr, atRight⟩ := (lowerExpr_ok_iff inRight fl).2 soundRight
        exact ⟨sound.typed, l, fl, r, fr, atLeft, atRight⟩
  | .unary info op operand, plain, f => by
    obtain ⟨-, inOperand⟩ := List.forall_mem_cons.1 plain
    rw [Typed.Expr.nodes, List.forall_mem_cons]
    constructor
    · rintro ⟨v, f', lowered⟩
      obtain ⟨typed, o, fo, atOperand, -, -⟩ := lowerExpr_unary.1 lowered
      exact ⟨⟨typed, rfl⟩, (lowerExpr_ok_iff inOperand _).1 ⟨o, fo, atOperand⟩⟩
    · rintro ⟨sound, soundOperand⟩
      obtain ⟨o, fo, atOperand⟩ := (lowerExpr_ok_iff inOperand f).2 soundOperand
      exact ⟨_, _, lowerExpr_unary.2 ⟨sound.typed, o, fo, atOperand, rfl, rfl⟩⟩
  | .call info callee symbol arguments, plain, f => by
    obtain ⟨-, inArguments⟩ := List.forall_mem_cons.1 plain
    rw [Typed.Expr.nodes, List.forall_mem_cons, exists_lowerExpr_call,
      lowerExprs_ok_iff inArguments f]
    constructor
    · rintro ⟨typed, resolved, sound⟩
      exact ⟨⟨typed, resolved⟩, sound⟩
    · rintro ⟨here, sound⟩
      exact ⟨here.typed, here.resolved, sound⟩
  | .assignment info target symbol value, plain, f => by
    obtain ⟨-, inValue⟩ := List.forall_mem_cons.1 plain
    rw [Typed.Expr.nodes, List.forall_mem_cons]
    constructor
    · rintro ⟨v, f', lowered⟩
      obtain ⟨typed, o, place, atValue, found, -⟩ := lowerExpr_assignment.1 lowered
      exact ⟨⟨typed, placeOf_ok_iff.1 ⟨place, found⟩⟩,
        (lowerExpr_ok_iff inValue _).1 ⟨o, f', atValue⟩⟩
    · rintro ⟨sound, soundValue⟩
      obtain ⟨o, f', atValue⟩ := (lowerExpr_ok_iff inValue f).2 soundValue
      obtain ⟨place, found⟩ := placeOf_ok_iff.2 sound.resolved
      exact ⟨_, _, lowerExpr_assignment.2 ⟨sound.typed, o, place, atValue, found, rfl⟩⟩

theorem lowerExprs_ok_iff : ∀ {es : List Typed.Expr},
    (∀ n ∈ Typed.Expr.nodesAll es, n.literal?.isSome = true → n.type.isError = false) → ∀ f : Fresh,
    (∃ vs f', lowerExprs folding es f = .ok (vs, f')) ↔ ∀ n ∈ Typed.Expr.nodesAll es, n.Sound
  | [], _, f => ⟨fun _ => List.forall_mem_nil _, fun _ => ⟨_, _, lowerExprs_nil.2 ⟨rfl, rfl⟩⟩⟩
  | e :: es, plain, f => by
    obtain ⟨first, others⟩ := List.forall_mem_append.1 plain
    rw [Typed.Expr.nodesAll, List.forall_mem_append]
    constructor
    · rintro ⟨vs, f', lowered⟩
      obtain ⟨v, f₁, rest, atFirst, atRest, -⟩ := lowerExprs_cons.1 lowered
      exact ⟨(lowerExpr_ok_iff first _).1 ⟨v, f₁, atFirst⟩,
        (lowerExprs_ok_iff others _).1 ⟨rest, f', atRest⟩⟩
    · rintro ⟨soundFirst, soundOthers⟩
      obtain ⟨v, f₁, atFirst⟩ := (lowerExpr_ok_iff first f).2 soundFirst
      obtain ⟨rest, f', atRest⟩ := (lowerExprs_ok_iff others f₁).2 soundOthers
      exact ⟨_, _, lowerExprs_cons.2 ⟨v, f₁, rest, atFirst, atRest, rfl⟩⟩

end

/-! ## Statements -/

/-- The soundness of a statement that holds one expression and declares nothing. -/
theorem sound_iff_of_single {s : Typed.Stmt} {e : Typed.Expr} (readable : s.isError = false)
    (declared : s.undeclared = false) (own : s.ownExprs = [e]) :
    s.Sound ↔ ∀ n ∈ e.nodes, n.Sound := by
  constructor
  · intro sound
    have exprs := sound.exprs
    rw [own] at exprs
    exact exprs e (List.mem_singleton_self e)
  · intro sound
    refine ⟨readable, declared, ?_⟩
    rw [own]
    exact List.forall_mem_singleton.2 sound

mutual

/-- A statement has code if it and all statements in it are sound. -/
theorem lowerStmt_ok_iff : ∀ {s : Typed.Stmt}, Typed.Stmt.Inner s.preorder → ∀ f : Fresh,
    (∃ code f', lowerStmt folding s f = .ok (code, f')) ↔ ∀ t ∈ s.preorder, t.Sound
  | .letVar span name symbol type value, inner, f => by
    obtain ⟨regular, -⟩ := List.forall_mem_singleton.1 inner
    have plain := regular.literals value (List.mem_singleton_self value)
    rw [Typed.Stmt.preorder, List.forall_mem_singleton]
    constructor
    · rintro ⟨code, f', lowered⟩
      obtain ⟨-, v, place, atValue, found, -⟩ := lowerStmt_letVar.1 lowered
      exact ⟨rfl, placeOf_ok_iff.1 ⟨place, found⟩,
        List.forall_mem_singleton.2 ((lowerExpr_ok_iff plain f).1 ⟨v, f', atValue⟩)⟩
    · intro sound
      obtain ⟨v, f', atValue⟩ :=
        (lowerExpr_ok_iff plain f).2 (sound.exprs value (List.mem_singleton_self value))
      obtain ⟨place, found⟩ := placeOf_ok_iff.2 sound.declared
      exact ⟨_, _, lowerStmt_letVar.2 ⟨regular.span, v, place, atValue, found, rfl⟩⟩
  | .ifThen span condition thenBlock, inner, f => by
    obtain ⟨⟨regular, -⟩, inThen⟩ := List.forall_mem_cons.1 inner
    have plain := regular.literals condition (List.mem_singleton_self condition)
    rw [Typed.Stmt.preorder, List.forall_mem_cons, sound_iff_of_single rfl rfl rfl]
    constructor
    · rintro ⟨code, f', lowered⟩
      obtain ⟨-, c, fc, yes, atTest, atThen, -⟩ := lowerStmt_ifThen.1 lowered
      exact ⟨(lowerExpr_ok_iff plain _).1 ⟨c, fc, atTest⟩,
        (lowerBlock_ok_iff inThen _).1 ⟨yes, f', atThen⟩⟩
    · rintro ⟨soundTest, soundThen⟩
      obtain ⟨c, fc, atTest⟩ := (lowerExpr_ok_iff plain _).2 soundTest
      obtain ⟨yes, f', atThen⟩ := (lowerBlock_ok_iff inThen fc).2 soundThen
      exact ⟨_, _, lowerStmt_ifThen.2 ⟨regular.span, c, fc, yes, atTest, atThen, rfl⟩⟩
  | .ifThenElse span condition thenBlock elseBranch, inner, f => by
    obtain ⟨⟨regular, -⟩, inside⟩ := List.forall_mem_cons.1 inner
    obtain ⟨inThen, inElse⟩ := List.forall_mem_append.1 inside
    have plain := regular.literals condition (List.mem_singleton_self condition)
    rw [Typed.Stmt.preorder, List.forall_mem_cons, List.forall_mem_append,
      sound_iff_of_single rfl rfl rfl]
    constructor
    · rintro ⟨code, f', lowered⟩
      obtain ⟨-, c, fc, yes, fy, no, atTest, atThen, atElse, -⟩ := lowerStmt_ifThenElse.1 lowered
      exact ⟨(lowerExpr_ok_iff plain _).1 ⟨c, fc, atTest⟩,
        (lowerBlock_ok_iff inThen _).1 ⟨yes, fy, atThen⟩,
        (lowerStmt_ok_iff inElse _).1 ⟨no, f', atElse⟩⟩
    · rintro ⟨soundTest, soundThen, soundElse⟩
      obtain ⟨c, fc, atTest⟩ := (lowerExpr_ok_iff plain _).2 soundTest
      obtain ⟨yes, fy, atThen⟩ := (lowerBlock_ok_iff inThen fc).2 soundThen
      obtain ⟨no, f', atElse⟩ := (lowerStmt_ok_iff inElse fy).2 soundElse
      exact ⟨_, _, lowerStmt_ifThenElse.2
        ⟨regular.span, c, fc, yes, fy, no, atTest, atThen, atElse, rfl⟩⟩
  | .whileLoop span condition body, inner, f => by
    obtain ⟨⟨regular, -⟩, inBody⟩ := List.forall_mem_cons.1 inner
    have plain := regular.literals condition (List.mem_singleton_self condition)
    rw [Typed.Stmt.preorder, List.forall_mem_cons, sound_iff_of_single rfl rfl rfl]
    constructor
    · rintro ⟨code, f', lowered⟩
      obtain ⟨-, c, fc, round, atTest, atBody, -⟩ := lowerStmt_whileLoop.1 lowered
      exact ⟨(lowerExpr_ok_iff plain _).1 ⟨c, fc, atTest⟩,
        (lowerBlock_ok_iff inBody _).1 ⟨round, f', atBody⟩⟩
    · rintro ⟨soundTest, soundBody⟩
      obtain ⟨c, fc, atTest⟩ := (lowerExpr_ok_iff plain _).2 soundTest
      obtain ⟨round, f', atBody⟩ := (lowerBlock_ok_iff inBody fc).2 soundBody
      exact ⟨_, _, lowerStmt_whileLoop.2 ⟨regular.span, c, fc, round, atTest, atBody, rfl⟩⟩
  | .block b, inner, f => by
    obtain ⟨⟨regular, -⟩, inside⟩ := List.forall_mem_cons.1 inner
    rw [Typed.Stmt.preorder, List.forall_mem_cons, ← lowerBlock_ok_iff inside f]
    constructor
    · rintro ⟨code, f', lowered⟩
      exact ⟨⟨rfl, rfl, List.forall_mem_nil _⟩, code, f', (lowerStmt_block.1 lowered).2⟩
    · rintro ⟨-, code, f', lowered⟩
      exact ⟨code, f', lowerStmt_block.2 ⟨regular.span, lowered⟩⟩
  | .expression span value, inner, f => by
    obtain ⟨regular, -⟩ := List.forall_mem_singleton.1 inner
    have plain := regular.literals value (List.mem_singleton_self value)
    rw [Typed.Stmt.preorder, List.forall_mem_singleton, sound_iff_of_single rfl rfl rfl,
      ← lowerExpr_ok_iff plain f]
    constructor
    · rintro ⟨code, f', lowered⟩
      obtain ⟨-, v, atValue, -⟩ := lowerStmt_expression.1 lowered
      exact ⟨v, f', atValue⟩
    · rintro ⟨v, f', atValue⟩
      exact ⟨_, _, lowerStmt_expression.2 ⟨regular.span, v, atValue, rfl⟩⟩
  | .ret span (some value), inner, f => by
    obtain ⟨regular, -⟩ := List.forall_mem_singleton.1 inner
    have plain := regular.literals value (List.mem_singleton_self value)
    rw [Typed.Stmt.preorder, List.forall_mem_singleton, sound_iff_of_single rfl rfl rfl,
      ← lowerExpr_ok_iff plain f]
    constructor
    · rintro ⟨code, f', lowered⟩
      obtain ⟨-, v, atValue, -⟩ := lowerStmt_ret_some.1 lowered
      exact ⟨v, f', atValue⟩
    · rintro ⟨v, f', atValue⟩
      exact ⟨_, _, lowerStmt_ret_some.2 ⟨regular.span, v, atValue, rfl⟩⟩
  | .ret span none, inner, f => by
    obtain ⟨regular, -⟩ := List.forall_mem_singleton.1 inner
    exact ⟨fun _ => List.forall_mem_singleton.2 ⟨rfl, rfl, List.forall_mem_nil _⟩,
      fun _ => ⟨_, _, lowerStmt_ret_none.2 ⟨regular.span, rfl, rfl⟩⟩⟩
  | .error span, _, f => by
    constructor
    · rintro ⟨code, f', lowered⟩
      exact absurd lowered lowerStmt_error
    · intro sound
      cases (List.forall_mem_singleton.1 sound).readable
  | .function .., inner, _ => by
    cases (inner _ List.mem_cons_self).2

theorem lowerBlock_ok_iff : ∀ {b : Typed.Block}, Typed.Stmt.Inner (Typed.Stmt.inBlock b) →
    ∀ f : Fresh, (∃ code f', lowerBlock folding b f = .ok (code, f')) ↔
      ∀ t ∈ Typed.Stmt.inBlock b, t.Sound
  | .mk _ _ body, inner, f => by
    rw [lowerBlock_eq]
    have inner : Typed.Stmt.Inner (Typed.Stmt.preorderAll body) := inner
    exact lowerAll_ok_iff inner f

theorem lowerAll_ok_iff : ∀ {ss : List Typed.Stmt}, Typed.Stmt.Inner (Typed.Stmt.preorderAll ss) →
    ∀ f : Fresh, (∃ code f', lowerAll folding ss f = .ok (code, f')) ↔
      ∀ t ∈ Typed.Stmt.preorderAll ss, t.Sound
  | [], _, f => ⟨fun _ => List.forall_mem_nil _, fun _ => ⟨_, _, lowerAll_nil.2 ⟨rfl, rfl⟩⟩⟩
  | s :: ss, inner, f => by
    obtain ⟨first, others⟩ := List.forall_mem_append.1 inner
    rw [Typed.Stmt.preorderAll, List.forall_mem_append]
    constructor
    · rintro ⟨code, f', lowered⟩
      obtain ⟨code₁, f₁, rest, atFirst, atRest, -⟩ := lowerAll_cons.1 lowered
      exact ⟨(lowerStmt_ok_iff first _).1 ⟨code₁, f₁, atFirst⟩,
        (lowerAll_ok_iff others _).1 ⟨rest, f', atRest⟩⟩
    · rintro ⟨soundFirst, soundOthers⟩
      obtain ⟨code₁, f₁, atFirst⟩ := (lowerStmt_ok_iff first f).2 soundFirst
      obtain ⟨rest, f', atRest⟩ := (lowerAll_ok_iff others f₁).2 soundOthers
      exact ⟨_, _, lowerAll_cons.2 ⟨code₁, f₁, rest, atFirst, atRest, rfl⟩⟩

end

/-! ## Programs -/

/-- A function has code if it is sound and all that is in it. -/
theorem exists_lowerFunction_iff {span : Span} {header : Typed.FunctionHeader} {body : Typed.Block}
    (inner : Typed.Stmt.Inner (Typed.Stmt.inBlock body)) :
    (∃ F, lowerFunction folding (span, header, body) = .ok F) ↔
      ∀ t ∈ (Typed.Stmt.function span header body).preorder, t.Sound := by
  have params : (Typed.Stmt.function span header body).Sound ↔
      ∃ places, header.params.mapM (fun p => placeOf p.symbol p.name span) = .ok places := by
    simp only [exists_mapM_ok_iff, placeOf_ok_iff]
    constructor
    · intro sound p mem
      exact Bool.eq_false_of_not_eq_true (List.any_eq_false.1 sound.declared p mem)
    · intro places
      refine ⟨rfl, List.any_eq_false.2 fun p mem => ?_, List.forall_mem_nil _⟩
      rw [places p mem]
      exact Bool.false_ne_true
  rw [Typed.Stmt.preorder, List.forall_mem_cons, params, ← lowerBlock_ok_iff inner {}]
  constructor
  · rintro ⟨F, lowered⟩
    obtain ⟨places, code, fresh, found, inBody, -⟩ := lowerFunction_ok_iff.1 lowered
    exact ⟨⟨places, found⟩, code, fresh, inBody⟩
  · rintro ⟨⟨places, found⟩, code, fresh, inBody⟩
    exact ⟨_, lowerFunction_ok_iff.2 ⟨places, code, fresh, found, inBody, rfl⟩⟩

/-- The entry function has code if all that is outside of functions is sound. -/
theorem exists_lowerEntry_iff {ss : List Typed.Stmt} (regular : ∀ s ∈ ss, s.AtTop) :
    (∃ F, lowerEntry folding ss = .ok F) ↔
      ∀ s ∈ ss, s.isFunction = false → ∀ t ∈ s.preorder, t.Sound := by
  have inner : Typed.Stmt.Inner (Typed.Stmt.preorderAll (ss.filter (!·.isFunction))) := by
    rw [Typed.Stmt.preorderAll_eq_flatMap]
    refine List.forall_mem_flatMap.2 fun s mem => ?_
    obtain ⟨mem, isInner⟩ := List.mem_filter.1 mem
    cases regular s mem with
    | inner h => exact h
    | function => cases isInner
  constructor
  · rintro ⟨F, lowered⟩ s mem isInner
    obtain ⟨code, fresh, lowered, -⟩ := function_ok_iff.1 lowered
    have sound := (lowerAll_ok_iff inner {}).1 ⟨code, fresh, lowered⟩
    rw [Typed.Stmt.preorderAll_eq_flatMap] at sound
    exact List.forall_mem_flatMap.1 sound s (List.mem_filter.2 ⟨mem, by simp [isInner]⟩)
  · intro sound
    have outside : ∀ t ∈ Typed.Stmt.preorderAll (ss.filter (!·.isFunction)), t.Sound := by
      rw [Typed.Stmt.preorderAll_eq_flatMap]
      refine List.forall_mem_flatMap.2 fun s mem => ?_
      obtain ⟨mem, isInner⟩ := List.mem_filter.1 mem
      exact sound s mem (by simpa using isInner)
    obtain ⟨code, fresh, lowered⟩ : ∃ code fresh,
        lowerAll folding (ss.filter (!·.isFunction)) {} = .ok (code, fresh) :=
      (lowerAll_ok_iff inner {}).2 outside
    exact ⟨_, function_ok_iff.2 ⟨code, fresh, lowered, rfl⟩⟩

/-- A program has code if all its statements are sound. -/
theorem exists_generate_iff {t : Typed.Program} (regular : ∀ s ∈ t.body, s.AtTop) :
    (∃ code, generate folding t = .ok code) ↔ ∀ s ∈ t.statements, s.Sound := by
  have functions : (∃ Fs, t.functions.mapM (lowerFunction folding) = .ok Fs) ↔
      ∀ s ∈ t.body, s.isFunction = true → ∀ inside ∈ s.preorder, inside.Sound := by
    rw [exists_mapM_ok_iff]
    constructor
    · intro lowered s mem isFunction
      cases s with
      | function span header body =>
        cases regular _ mem with
        | inner h => cases (h _ List.mem_cons_self).2
        | function _ h =>
          exact (exists_lowerFunction_iff h).1 (lowered _ (Typed.Program.mem_functionsOf.2 mem))
      | _ => cases isFunction
    · rintro sound ⟨span, header, body⟩ mem
      have mem := Typed.Program.mem_functionsOf.1 mem
      cases regular _ mem with
      | inner h => cases (h _ List.mem_cons_self).2
      | function _ h => exact (exists_lowerFunction_iff h).2 (sound _ mem rfl)
  have entry : (∃ F, lowerEntry folding t.body = .ok F) ↔
      ∀ s ∈ t.body, s.isFunction = false → ∀ inside ∈ s.preorder, inside.Sound :=
    exists_lowerEntry_iff regular
  rw [Typed.Program.statements, Typed.Stmt.preorderAll_eq_flatMap, List.forall_mem_flatMap]
  constructor
  · rintro ⟨code, generated⟩ s mem
    obtain ⟨F, Fs, inEntry, inFunctions, -⟩ := generate_ok_iff.1 generated
    cases isFunction : s.isFunction with
    | true => exact functions.1 ⟨Fs, mapM_ok_iff.2 inFunctions⟩ s mem isFunction
    | false => exact entry.1 ⟨F, inEntry⟩ s mem isFunction
  · intro sound
    obtain ⟨F, inEntry⟩ := entry.2 fun s mem _ => sound s mem
    obtain ⟨Fs, inFunctions⟩ := functions.2 fun s mem _ => sound s mem
    exact ⟨_, generate_ok_iff.2 ⟨F, Fs, inEntry, mapM_ok_iff.1 inFunctions, rfl⟩⟩

end Lowering

end MiniLang
