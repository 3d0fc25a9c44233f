import MiniLang.Arithmetic
import MiniLang.Syntax.Expr

/-!
# Folding constants

An operator between two written-out values can be computed while code is generated, if it can be
applied to values of their kinds and has a value for them. What has no value is left to the run of
the program, which stops there.
-/

set_option autoImplicit false

namespace MiniLang

namespace Literal

/-- The number that stands for a written-out value in code. -/
def code : Literal → Int
  | int value => value
  | bool value => Arithmetic.ofBool value

end Literal

namespace Lowering

/-- Whether an operator takes operands of the kinds of the given values. -/
def folds (op : BinaryOp) : Literal → Literal → Bool
  | .int _, .int _ => !op.isLogical
  | .bool _, .bool _ => op.isLogical || op.isEquality
  | _, _ => false

/-- The value of an operator between written-out values, as a number. -/
def fold? (op : BinaryOp) (left right : Literal) : Option Int :=
  if folds op left right then
    match Arithmetic.applyBinary op left.code right.code with
    | .ok value => some value
    | .error _ => none
  else
    none

/-- What is folded is what the operator computes. -/
theorem applyBinary_of_fold? {op : BinaryOp} {left right : Literal} {value : Int}
    (h : fold? op left right = some value) :
    Arithmetic.applyBinary op left.code right.code = .ok value := by
  unfold fold? at h
  split at h
  · split at h
    next computed =>
      cases h
      exact computed
    next => cases h
  · cases h

end Lowering

end MiniLang
