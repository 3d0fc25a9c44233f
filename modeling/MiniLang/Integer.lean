/-!
# Integers of sixty-four bits

The language computes with the integers from `-2^63` to `2^63 - 1`. An operation whose result lies
outside has no value; nothing wraps around. Division and remainder go toward zero. This module
also reads integers written in decimal digits.
-/

set_option autoImplicit false

namespace MiniLang.Integer

/-- An integer that the language can hold. -/
def InRange (n : Int) : Prop := -9223372036854775808 ≤ n ∧ n < 9223372036854775808

instance (n : Int) : Decidable (InRange n) := by unfold InRange; infer_instance

/-- The integer itself if the language can hold it. -/
def checked (n : Int) : Option Int := if InRange n then some n else none

/-- A checked integer is in range and unchanged. -/
theorem checked_eq_some_iff {n m : Int} : checked n = some m ↔ InRange n ∧ n = m := by
  unfold checked
  split <;> simp_all

/-- Whether a character is one of the ten decimal digits. -/
def isDigit (c : Char) : Bool := '0' ≤ c && c ≤ '9'

/-- The number that a sequence of decimal digits stands for. -/
def ofDigits (digits : List Char) : Nat :=
  digits.foldl (fun n c => 10 * n + (c.toNat - '0'.toNat)) 0

/-- The integer written as a sign, which may be missing, and one or more decimal digits, if it is in
range. -/
def parse? (text : List Char) : Option Int :=
  match text with
  | '-' :: digits => if wellFormed digits then checked (-(ofDigits digits : Int)) else none
  | '+' :: digits => if wellFormed digits then checked (ofDigits digits) else none
  | digits => if wellFormed digits then checked (ofDigits digits) else none
where
  /-- At least one character, and digits only. -/
  wellFormed (digits : List Char) : Bool := !digits.isEmpty && digits.all isDigit

/-- What can be read is in range. -/
theorem inRange_of_parse? {text : List Char} {n : Int} (h : parse? text = some n) : InRange n := by
  have inside {m : Int} (checkedHere : checked m = some n) : InRange n := by
    obtain ⟨inRange, rfl⟩ := checked_eq_some_iff.1 checkedHere
    exact inRange
  unfold parse? at h
  split at h <;> split at h <;> first | exact inside h | exact absurd h (by simp)

end MiniLang.Integer
