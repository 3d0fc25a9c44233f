import Mathlib.Tactic
import MiniLang.Lowering.Folding
import MiniLang.Proofs.Semantics.Reference
import MiniLang.Proofs.Typing.Judgement

/-!
# Values and numbers

Code computes with numbers where programs compute with values: `Value.code` is the number that
stands for a value. For operands of the types that an operator takes, the arithmetic of code gives
the number of the operator's result, or fails as the operator does (`applyBinary_code`,
`applyUnary_code`), and folding gives the number of that result too.
-/

set_option autoImplicit false

namespace MiniLang.Semantics

/-- A value is of a type. -/
inductive Value.HasType : Value → Ty → Prop
  | int (n : Int) : HasType (.int n) .int
  | bool (b : Bool) : HasType (.bool b) .bool
  | unit : HasType .unit .unit

/-- The number that stands for a value in code. -/
def Value.code : Value → Int
  | .int n => n
  | .bool b => Arithmetic.ofBool b
  | .unit => 0

theorem Value.HasType.bool_inv {v : Value} (h : v.HasType .bool) : ∃ b, v = .bool b := by
  cases h
  exact ⟨_, rfl⟩

theorem Value.HasType.int_inv {v : Value} (h : v.HasType .int) : ∃ n, v = .int n := by
  cases h
  exact ⟨_, rfl⟩

theorem Value.HasType.unit_inv {v : Value} (h : v.HasType .unit) : v = .unit := by
  cases h
  rfl

theorem hasType_ofLiteral (value : Literal) :
    (Value.ofLiteral value).HasType (Typing.literalType value) := by
  cases value <;> constructor

theorem code_ofLiteral (value : Literal) : (Value.ofLiteral value).code = value.code := by
  cases value <;> rfl

/-- What arithmetic gives agrees with what an operator gives: the number of a value of the given
type, or the cause of the failure. -/
inductive Agrees (type : Ty) : Outcome Value → Except ArithmeticError Int → Prop
  | value {v : Value} (typed : v.HasType type) : Agrees type (.done v) (.ok v.code)
  | divisionByZero : Agrees type (.failed .divisionByZero) (.error .divisionByZero)
  | overflow : Agrees type (.failed .overflow) (.error .overflow)

theorem agrees_fitting (n : Int) : Agrees .int (fitting n) (Arithmetic.fit n) := by
  unfold fitting Arithmetic.fit Integer.checked
  by_cases fits : Integer.InRange n
  · simp only [if_pos fits]
    exact .value (.int n)
  · simp only [if_neg fits]
    exact .overflow

theorem agrees_quotient (a b : Int) :
    Agrees .int (operate .div (.int a) (.int b)) (Arithmetic.quotient a b) := by
  unfold operate Arithmetic.quotient
  by_cases zero : b = 0
  · simp only [if_pos zero]
    exact .divisionByZero
  · simp only [if_neg zero]
    exact agrees_fitting _

theorem agrees_remainder (a b : Int) :
    Agrees .int (operate .rem (.int a) (.int b)) (Arithmetic.remainder a b) := by
  unfold operate Arithmetic.remainder Arithmetic.quotient Arithmetic.fit Integer.checked
  by_cases zero : b = 0
  · simp only [if_pos zero]
    exact .divisionByZero
  · by_cases fits : Integer.InRange (a.tdiv b)
    · simp only [if_neg zero, if_pos fits]
      exact .value (.int _)
    · simp only [if_neg zero, if_neg fits]
      exact .overflow

/-- A comparison has a truth value. -/
theorem agrees_bool {test test' : Bool} (same : test = test') :
    Agrees .bool (.done (.bool test)) (.ok (Arithmetic.ofBool test')) := by
  subst same
  exact .value (.bool _)

/-- Operators compute on numbers what they compute on values. -/
theorem applyBinary_code {op : BinaryOp} {a b : Value} {left right type : Ty}
    (applies : Typing.binaryType op left right = some type) (ha : a.HasType left)
    (hb : b.HasType right) :
    Agrees type (operate op a b) (Arithmetic.applyBinary op a.code b.code) := by
  cases ha with
  | int a =>
    cases hb with
    | int b =>
      cases op with
      | add | sub | mul =>
        cases applies
        exact agrees_fitting _
      | div =>
        cases applies
        exact agrees_quotient a b
      | rem =>
        cases applies
        exact agrees_remainder a b
      | eq | ne | lt | le | gt | ge =>
        cases applies
        exact agrees_bool rfl
      | and | or => cases applies
    | _ => cases applies
  | bool a =>
    cases hb with
    | bool b =>
      cases op <;> cases applies
      all_goals
        refine agrees_bool ?_
        revert a b
        decide
    | _ => cases applies
  | unit => cases hb <;> cases applies

/-- The operators in front of an operand as well. -/
theorem applyUnary_code {op : UnaryOp} {a : Value} (ha : a.HasType (operandType op)) :
    Agrees (operandType op) (operateUnary op a) (Arithmetic.applyUnary op a.code) := by
  cases op with
  | neg =>
    obtain ⟨n, rfl⟩ := ha.int_inv
    exact agrees_fitting _
  | not =>
    obtain ⟨b, rfl⟩ := ha.bool_inv
    refine agrees_bool ?_
    cases b <;> rfl

/-- An operand that decides an operator is its value. -/
theorem eq_of_decided? {op : BinaryOp} {a v : Value} (h : decided? op a = some v) : v = a := by
  unfold decided? at h
  split at h <;> simp_all

/-- The operators that one operand can decide are between truth values. -/
theorem binaryType_logical {op : BinaryOp} {left right type : Ty} (logical : op.isLogical = true)
    (applies : Typing.binaryType op left right = some type) :
    left = .bool ∧ right = .bool ∧ type = .bool := by
  unfold Typing.binaryType at applies
  split at applies
  · cases op <;> simp_all [BinaryOp.isLogical, BinaryOp.isArithmetic, BinaryOp.isRelational,
      BinaryOp.isEquality]
  · split at applies <;> simp_all
  · cases applies

/-- Only these operators can be decided. -/
theorem decided?_of_not_logical {op : BinaryOp} (strict : op.isLogical = false) (a : Value) :
    decided? op a = none := by
  cases op <;> first | rfl | cases strict

/-- An operator that its left operand leaves open has the value of the right one. -/
theorem operate_of_open {op : BinaryOp} {a b : Bool} (logical : op.isLogical = true)
    (undecided : decided? op (.bool a) = none) :
    operate op (.bool a) (.bool b) = .done (.bool b) := by
  cases op <;> cases logical <;> cases a <;> first | rfl | cases undecided

/-- One that its left operand decides has the value of that. -/
theorem operate_of_decided {op : BinaryOp} {a b : Bool} {v : Value}
    (decided : decided? op (.bool a) = some v) : operate op (.bool a) (.bool b) = .done v := by
  unfold decided? at decided
  split at decided <;> cases decided <;> simp_all [operate]

end MiniLang.Semantics
