import MiniLang.Integer
import MiniLang.Syntax.Operator

/-!
# Arithmetic

What the operators compute. Truth values count as the numbers 0 and 1. A result that the language
cannot hold is an error and so is a division by zero; nothing wraps around. Results are always in
range (`inRange_of_applyBinary`, `inRange_of_applyUnary`).
-/

set_option autoImplicit false

namespace MiniLang

/-- Why an operator has no value for its operands. -/
inductive ArithmeticError where
  | divisionByZero
  | overflow
  deriving DecidableEq, Repr

namespace Arithmetic

open Integer

/-- A number as the result of a computation: too large or too small a number is an overflow. -/
def fit (n : Int) : Except ArithmeticError Int :=
  match checked n with
  | some n => .ok n
  | none => .error .overflow

/-- A truth value as a number. -/
def ofBool (b : Bool) : Int := if b then 1 else 0

/-- The quotient, rounded toward zero. -/
def quotient (a b : Int) : Except ArithmeticError Int :=
  if b = 0 then .error .divisionByZero else fit (a.tdiv b)

/-- The remainder that goes with `quotient`. It has the sign of the dividend, and a value only where
the quotient has one. -/
def remainder (a b : Int) : Except ArithmeticError Int :=
  match quotient a b with
  | .ok _ => .ok (a.tmod b)
  | .error e => .error e

/-- What an operator between two operands computes. -/
def applyBinary (op : BinaryOp) (a b : Int) : Except ArithmeticError Int :=
  match op with
  | .add => fit (a + b)
  | .sub => fit (a - b)
  | .mul => fit (a * b)
  | .div => quotient a b
  | .rem => remainder a b
  | .eq => .ok (ofBool (a = b))
  | .ne => .ok (ofBool (a ≠ b))
  | .lt => .ok (ofBool (a < b))
  | .le => .ok (ofBool (a ≤ b))
  | .gt => .ok (ofBool (a > b))
  | .ge => .ok (ofBool (a ≥ b))
  | .and => .ok (ofBool (a ≠ 0 && b ≠ 0))
  | .or => .ok (ofBool (a ≠ 0 || b ≠ 0))

/-- What an operator before its operand computes. -/
def applyUnary (op : UnaryOp) (a : Int) : Except ArithmeticError Int :=
  match op with
  | .neg => fit (-a)
  | .not => .ok (ofBool (a = 0))

theorem fit_eq_ok_iff {n m : Int} : fit n = .ok m ↔ InRange n ∧ n = m := by
  unfold fit
  rw [← checked_eq_some_iff]
  cases checked n <;> simp

theorem inRange_ofBool (b : Bool) : InRange (ofBool b) := by
  cases b <;> decide

theorem inRange_of_quotient {a b n : Int} (h : quotient a b = .ok n) : InRange n := by
  unfold quotient at h
  split at h
  · cases h
  · obtain ⟨inRange, rfl⟩ := fit_eq_ok_iff.1 h
    exact inRange

/-- A remainder is no farther from zero than the number that is divided. -/
theorem inRange_of_remainder {a b n : Int} (range : InRange a) (h : remainder a b = .ok n) :
    InRange n := by
  unfold remainder at h
  split at h
  · cases h
    have below : (a.tmod b).natAbs ≤ a.natAbs := by
      rw [Int.natAbs_tmod]
      exact Nat.mod_le ..
    unfold InRange at range ⊢
    rcases Int.le_total 0 a with nonneg | nonpos
    · have := Int.tmod_nonneg b nonneg
      omega
    · have : a.tmod b ≤ 0 := by
        have := Int.tmod_nonneg b (a := -a) (by omega)
        rw [Int.neg_tmod] at this
        omega
      omega
  · cases h

/-- What an operator computes from numbers in range is in range. -/
theorem inRange_of_applyBinary {op : BinaryOp} {a b n : Int} (range : InRange a)
    (h : applyBinary op a b = .ok n) : InRange n := by
  cases op with
  | add | sub | mul =>
    obtain ⟨inRange, rfl⟩ := fit_eq_ok_iff.1 h
    exact inRange
  | div => exact inRange_of_quotient h
  | rem => exact inRange_of_remainder range h
  | eq | ne | lt | le | gt | ge | and | or =>
    cases h
    exact inRange_ofBool _

/-- What an operator computes from a number is in range. -/
theorem inRange_of_applyUnary {op : UnaryOp} {a n : Int} (h : applyUnary op a = .ok n) :
    InRange n := by
  cases op with
  | neg =>
    obtain ⟨inRange, rfl⟩ := fit_eq_ok_iff.1 h
    exact inRange
  | not =>
    cases h
    exact inRange_ofBool _

end Arithmetic

end MiniLang
