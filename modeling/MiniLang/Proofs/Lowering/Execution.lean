import MiniLang.Proofs.Ir.Instructions
import MiniLang.Proofs.Lowering.Emission
import MiniLang.Proofs.Semantics.Reference

/-!
# Running laid-out code

The ways through the code of an operator that may skip its right operand: past the right operand
(`steps_skip`), or into it and out of it (`steps_enter`, `steps_leave`). All of them leave the value
of the operator in its slot, and those that get to the end in its temporary too.
-/

set_option autoImplicit false

namespace MiniLang.Lowering

open Ir
open Semantics (decided?)

variable {p : Ir.Program} {s : State} {op : BinaryOp} {n : Nat} {o : Operand} {a : Bool}
  {code after : List Instr}

/-- Storing to the slot of an operator moves on to the next instruction. -/
theorem faces_store {place : Place} {value : Int} (h : Faces s (.store place o :: code)) :
    Faces ((s.facing code).store place value) code := by
  refine ⟨?_, ?_, ?_⟩
  · rw [State.store_code, State.facing_code]
  · rw [State.store_function]
    exact h.tail.suffix
  · rw [State.store_function]
    exact h.nodup

/-- Loading what was stored. -/
theorem steps_load_stored (s : State) {place : Place} {value : Int} {dest : Temp} :
    Steps p 1 ((s.store place value).facing (.load dest place :: code))
      (((s.store place value).facing code).write dest value) := by
  refine steps_load rfl ?_
  rw [State.load_facing, State.load_store_self]

/-- An operand that does not decide the operator leads into the right operand. -/
theorem steps_skipping_open (h : Faces s (skipping op n o :: code)) (logical : op.isLogical = true)
    (ho : s.frame.read o = .ok (Arithmetic.ofBool a)) (undecided : decided? op (.bool a) = none)
    (target : .label (label (shortName op) "rhs" n) :: after <:+ s.frame.function.code) :
    Steps p 2 s (s.facing after) := by
  cases op <;> cases logical <;> cases a <;>
    first | exact steps_branch h ho target | cases undecided

/-- One that does leads to the end of the operator. -/
theorem steps_skipping_decided (h : Faces s (skipping op n o :: code))
    (logical : op.isLogical = true) (ho : s.frame.read o = .ok (Arithmetic.ofBool a))
    (decided : decided? op (.bool a) ≠ none)
    (target : .label (label (shortName op) "end" n) :: after <:+ s.frame.function.code) :
    Steps p 2 s (s.facing after) := by
  cases op <;> cases logical <;> cases a <;>
    first | exact steps_branch h ho target | exact absurd rfl decided

/-- An operator that skips its right operand. -/
theorem steps_skip {dest : Temp} (logical : op.isLogical = true)
    (h : Faces s (.store (slot op n) o :: skipping op n o :: code))
    (ho : s.frame.read o = .ok (Arithmetic.ofBool a)) (decided : decided? op (.bool a) ≠ none)
    (target : .label (label (shortName op) "end" n) :: .load dest (slot op n) :: after <:+ code) :
    Steps p 4 s (((s.store (slot op n) (Arithmetic.ofBool a)).facing after).write dest
      (Arithmetic.ofBool a)) := by
  have stored : Faces ((s.facing _).store _ (Arithmetic.ofBool a)) (skipping op n o :: code) :=
    faces_store h
  have read : ((s.facing (skipping op n o :: code)).store (slot op n)
      (Arithmetic.ofBool a)).frame.read o = .ok (Arithmetic.ofBool a) := by
    rw [State.read_store, State.read_facing, ho]
  have ahead := stored.ahead (target.trans (List.suffix_cons ..))
  have skip := steps_skipping_decided (p := p) stored logical read decided ahead
  have load : Steps p 1 ((s.store (slot op n) (Arithmetic.ofBool a)).facing
    (.load dest (slot op n) :: after)) _ := steps_load_stored s
  exact ((steps_store h.here ho).trans skip).trans load

/-- The way into the right operand. -/
theorem steps_enter (logical : op.isLogical = true)
    (h : Faces s (.store (slot op n) o :: skipping op n o ::
      .label (label (shortName op) "rhs" n) :: after))
    (ho : s.frame.read o = .ok (Arithmetic.ofBool a)) (undecided : decided? op (.bool a) = none) :
    Steps p 3 s ((s.store (slot op n) (Arithmetic.ofBool a)).facing after) := by
  have stored : Faces ((s.facing _).store _ (Arithmetic.ofBool a)) (skipping op n o ::
    .label (label (shortName op) "rhs" n) :: after) := faces_store h
  have read : ((s.facing (skipping op n o :: .label (label (shortName op) "rhs" n) :: after)).store
      (slot op n) (Arithmetic.ofBool a)).frame.read o = .ok (Arithmetic.ofBool a) := by
    rw [State.read_store, State.read_facing, ho]
  have ahead := stored.ahead (List.suffix_cons ..)
  exact (steps_store h.here ho).trans
    (steps_skipping_open stored logical read undecided ahead)

/-- The way out of the right operand. -/
theorem steps_leave {dest : Temp} {value : Int}
    (h : Faces s (.store (slot op n) o :: .jump (label (shortName op) "end" n) ::
      .label (label (shortName op) "end" n) :: .load dest (slot op n) :: after))
    (ho : s.frame.read o = .ok value) :
    Steps p 4 s (((s.store (slot op n) value).facing after).write dest value) := by
  have stored : Faces ((s.facing _).store _ value) (.jump (label (shortName op) "end" n) ::
    .label (label (shortName op) "end" n) :: .load dest (slot op n) :: after) := faces_store h
  have jump := steps_jump (p := p) stored (stored.ahead (List.suffix_cons ..))
  have load : Steps p 1 ((s.store (slot op n) value).facing (.load dest (slot op n) :: after)) _ :=
    steps_load_stored s
  exact ((steps_store h.here ho).trans jump).trans load

end MiniLang.Lowering
