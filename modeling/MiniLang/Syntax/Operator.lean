import MiniLang.Token.Basic

/-!
# Operators

The operators of expressions, the tokens that stand for them, and the classes that the rules for
types speak of. Every binary operator belongs to exactly one class (`exactly_one_class`).
-/

set_option autoImplicit false

namespace MiniLang

/-- The operators between two operands. -/
inductive BinaryOp where
  | add
  | sub
  | mul
  | div
  | rem
  | eq
  | ne
  | lt
  | le
  | gt
  | ge
  | and
  | or
  deriving DecidableEq, Repr

namespace BinaryOp

/-- The operator that a kind of tokens stands for between two operands. -/
def ofToken? : TokenKind → Option BinaryOp
  | .plus => some add
  | .dash => some sub
  | .star => some mul
  | .slash => some div
  | .percent => some rem
  | .equals => some eq
  | .notEquals => some ne
  | .less => some lt
  | .lessEquals => some le
  | .greater => some gt
  | .greaterEquals => some ge
  | .and => some and
  | .or => some or
  | _ => none

/-- An operator as it is written. -/
def symbol : BinaryOp → String
  | add => "+"
  | sub => "-"
  | mul => "*"
  | div => "/"
  | rem => "%"
  | eq => "=="
  | ne => "!="
  | lt => "<"
  | le => "<="
  | gt => ">"
  | ge => ">="
  | and => "&&"
  | or => "||"

/-- All binary operators. -/
def all : List BinaryOp := [add, sub, mul, div, rem, eq, ne, lt, le, gt, ge, and, or]

/-- The operator that is written as the given text. -/
def ofSymbol? (text : String) : Option BinaryOp := all.find? (·.symbol == text)

/-- Computes a number from numbers. -/
def isArithmetic : BinaryOp → Bool
  | add | sub | mul | div | rem => true
  | _ => false

/-- Compares the order of numbers. -/
def isRelational : BinaryOp → Bool
  | lt | le | gt | ge => true
  | _ => false

/-- Asks whether two values are the same. -/
def isEquality : BinaryOp → Bool
  | eq | ne => true
  | _ => false

/-- Combines truth values, and evaluates the right operand only when it matters. -/
def isLogical : BinaryOp → Bool
  | and | or => true
  | _ => false

/-- The four classes share no operator and leave none out. -/
theorem exactly_one_class (op : BinaryOp) :
    [op.isArithmetic, op.isRelational, op.isEquality, op.isLogical].count true = 1 := by
  cases op <;> decide

end BinaryOp

/-- The operators before one operand. -/
inductive UnaryOp where
  | neg
  | not
  deriving DecidableEq, Repr

namespace UnaryOp

/-- An operator as it is written. -/
def symbol : UnaryOp → String
  | neg => "-"
  | not => "!"

end UnaryOp

end MiniLang
