import MiniLang.Syntax.Operator
import MiniLang.Text.Span

/-!
# Expressions

The tree of an expression. Every node has a number, by which later stages refer to it, and the
span it was read from. `preorder` lists a node before the nodes below it, and `names` lists the
places where an expression names a variable or function.
-/

set_option autoImplicit false

namespace MiniLang

/-- The number of a node in a tree; no two nodes of a tree share one. -/
abbrev NodeId := Nat

/-- A value that is written out. -/
inductive Literal where
  | int (value : Int)
  | bool (value : Bool)
  deriving DecidableEq, Repr

/-- Expressions. -/
inductive Expr where
  /-- A value that is written out. -/
  | literal (id : NodeId) (span : Span) (value : Literal)
  /-- The value of a variable or parameter. -/
  | var (id : NodeId) (span : Span) (name : String)
  /-- An operator between two operands. -/
  | binary (id : NodeId) (span : Span) (op : BinaryOp) (left right : Expr)
  /-- An operator before its operand. -/
  | unary (id : NodeId) (span : Span) (op : UnaryOp) (operand : Expr)
  /-- A call of the function with the given name. -/
  | call (id : NodeId) (span : Span) (callee : String) (calleeSpan : Span) (arguments : List Expr)
  /-- A new value for the variable with the given name; it is the value of the expression too. -/
  | assignment (id : NodeId) (span : Span) (target : String) (targetSpan : Span) (value : Expr)
  deriving Repr, Inhabited

/-- A place where an expression names a variable or function: the node that does, the name, and
where the name stands. -/
structure NameUse where
  id : NodeId
  name : String
  span : Span
  deriving DecidableEq, Repr

namespace Expr

/-- The number of an expression's root. -/
def id : Expr → NodeId
  | literal id _ _ => id
  | var id _ _ => id
  | binary id _ _ _ _ => id
  | unary id _ _ _ => id
  | call id _ _ _ _ => id
  | assignment id _ _ _ _ => id

/-- Where an expression stands. -/
def span : Expr → Span
  | literal _ span _ => span
  | var _ span _ => span
  | binary _ span _ _ _ => span
  | unary _ span _ _ => span
  | call _ span _ _ _ => span
  | assignment _ span _ _ _ => span

/-- The value of an expression that is written out. -/
def literal? : Expr → Option Literal
  | literal _ _ value => some value
  | _ => none

/-- Whether an expression is a value that is written out. -/
def isLiteral : Expr → Bool
  | literal _ _ _ => true
  | _ => false

/-- The written-out values are the expressions that have such a value. -/
theorem isLiteral_eq_isSome (e : Expr) : e.isLiteral = e.literal?.isSome := by cases e <;> rfl

mutual

/-- The numbers of an expression and of all expressions below it, parents first. -/
def preorder : Expr → List NodeId
  | literal id _ _ => [id]
  | var id _ _ => [id]
  | binary id _ _ left right => id :: (preorder left ++ preorder right)
  | unary id _ _ operand => id :: preorder operand
  | call id _ _ _ arguments => id :: preorderAll arguments
  | assignment id _ _ _ value => id :: preorder value

/-- The numbers of expressions and of all expressions below them, in order. -/
def preorderAll : List Expr → List NodeId
  | [] => []
  | e :: es => preorder e ++ preorderAll es

end

mutual

/-- Where an expression names something, in the order in which the names are looked up: a callee
before the arguments, the target of an assignment after the value. -/
def nameUses : Expr → List NameUse
  | literal _ _ _ => []
  | var id span name => [⟨id, name, span⟩]
  | binary _ _ _ left right => nameUses left ++ nameUses right
  | unary _ _ _ operand => nameUses operand
  | call id _ callee calleeSpan arguments => ⟨id, callee, calleeSpan⟩ :: nameUsesAll arguments
  | assignment id _ target targetSpan value => nameUses value ++ [⟨id, target, targetSpan⟩]

/-- Where the given expressions name something, in order. -/
def nameUsesAll : List Expr → List NameUse
  | [] => []
  | e :: es => nameUses e ++ nameUsesAll es

end

/-- The list starts with the root. -/
theorem head?_preorder (e : Expr) : (preorder e).head? = some e.id := by
  cases e <;> simp [preorder, id]

theorem preorderAll_eq_flatMap (es : List Expr) : preorderAll es = es.flatMap preorder := by
  induction es with
  | nil => rfl
  | cons e es ih => simp [preorderAll, ih]

theorem nameUsesAll_eq_flatMap (es : List Expr) : nameUsesAll es = es.flatMap nameUses := by
  induction es with
  | nil => rfl
  | cons e es ih => simp [nameUsesAll, ih]

end Expr

end MiniLang
