import Mathlib.Tactic
import MiniLang.Ir.Machine

/-!
# Counted steps of the machine

A run is a chain of single steps. `Steps p n s t` says that `n` of them lead from one state to
another, `Stops p n s r` that the run is over after `n` of them, with a result. What a run with a
limit gives follows from such a chain (`Stops.runFor_eq`, `Survives.runFor_eq`): the result if the
limit allows for all of its steps, and the limit's error otherwise.
-/

set_option autoImplicit false

namespace MiniLang.Ir

/-- A state whose running call has the given code still to run. -/
def State.facing (s : State) (code : List Instr) : State :=
  { s with frame := { s.frame with code := code } }

namespace State

variable (s : State) (code : List Instr)

@[simp] theorem facing_code : (s.facing code).frame.code = code := rfl

@[simp] theorem facing_function : (s.facing code).frame.function = s.frame.function := rfl

@[simp] theorem facing_waiting : (s.facing code).waiting = s.waiting := rfl

@[simp] theorem facing_depth : (s.facing code).depth = s.depth := rfl

@[simp] theorem read_facing (o : Operand) : (s.facing code).frame.read o = s.frame.read o := by
  cases o <;> rfl

@[simp] theorem readAll_facing (os : List Operand) :
    (s.facing code).frame.readAll os = s.frame.readAll os := by
  induction os with
  | nil => rfl
  | cons o os ih => simp only [Frame.readAll, read_facing, ih]

/-- A state that has code left runs its first instruction next. -/
theorem next_eq {s : State} {i : Instr} {code : List Instr} (h : s.frame.code = i :: code) :
    s.next = .ok (.instr i (s.facing code)) := by
  unfold next
  rw [settle.eq_def]
  simp only [h]
  rfl

end State

variable {p : Program}

/-- The given number of steps leads from one state to another. -/
inductive Steps (p : Program) : Nat → State → State → Prop
  | none (s : State) : Steps p 0 s s
  | more {n : Nat} {s past t u : State} {i : Instr} (here : s.next = .ok (.instr i past))
      (runs : step p past i = .ok (.running t)) (rest : Steps p n t u) : Steps p (n + 1) s u

/-- The run is over, with a result, after the given number of steps. -/
inductive Stops (p : Program) : Nat → State → Except RuntimeError (List Int) → Prop
  | stuck {s : State} {e : RuntimeError} (here : s.next = .error e) : Stops p 0 s (.error e)
  | ended {s : State} {printed : List Int} (here : s.next = .ok (.finished printed)) :
      Stops p 0 s (.ok printed)
  | failing {s past : State} {i : Instr} {e : RuntimeError} (here : s.next = .ok (.instr i past))
      (fails : step p past i = .error e) : Stops p 1 s (.error e)
  | finishing {s past : State} {i : Instr} {printed : List Int}
      (here : s.next = .ok (.instr i past)) (ends : step p past i = .ok (.finished printed)) :
      Stops p 1 s (.ok printed)
  | more {n : Nat} {s past t : State} {i : Instr} {r : Except RuntimeError (List Int)}
      (here : s.next = .ok (.instr i past)) (runs : step p past i = .ok (.running t))
      (rest : Stops p n t r) : Stops p (n + 1) s r

/-- A run can take at least the given number of steps. -/
def Survives (p : Program) (n : Nat) (s : State) : Prop := ∃ t, Steps p n s t

namespace Steps

theorem single {s t : State} {i : Instr} {code : List Instr} (here : s.frame.code = i :: code)
    (runs : step p (s.facing code) i = .ok (.running t)) : Steps p 1 s t :=
  .more (State.next_eq here) runs (.none t)

theorem trans {n m : Nat} {s t u : State} (first : Steps p n s t) (second : Steps p m t u) :
    Steps p (n + m) s u := by
  induction first with
  | none s => rwa [Nat.zero_add]
  | more here runs _ ih =>
    rw [Nat.succ_add]
    exact .more here runs (ih second)

theorem stops {n m : Nat} {s t : State} {r : Except RuntimeError (List Int)}
    (first : Steps p n s t) (second : Stops p m t r) : Stops p (n + m) s r := by
  induction first with
  | none s => rwa [Nat.zero_add]
  | more here runs _ ih =>
    rw [Nat.succ_add]
    exact .more here runs (ih second)

/-- The beginning of a chain of steps is a chain of steps. -/
theorem beginning {n : Nat} {s t : State} (steps : Steps p n s t) :
    ∀ {m : Nat}, m ≤ n → Survives p m s := by
  induction steps with
  | none s =>
    intro m le
    obtain rfl : m = 0 := by omega
    exact ⟨s, .none s⟩
  | @more n s past t u i here runs _ ih =>
    intro m le
    cases m with
    | zero => exact ⟨s, .none s⟩
    | succ m =>
      obtain ⟨v, before⟩ := ih (Nat.le_of_succ_le_succ le)
      exact ⟨v, .more here runs before⟩

/-- Steps and then a run that goes on for a while. -/
theorem survives {n m : Nat} {s t : State} (first : Steps p n s t) (second : Survives p m t) :
    Survives p (n + m) s := by
  obtain ⟨u, rest⟩ := second
  exact ⟨u, first.trans rest⟩

end Steps

theorem Survives.mono {n m : Nat} {s : State} (h : Survives p n s) (le : m ≤ n) :
    Survives p m s := by
  obtain ⟨t, steps⟩ := h
  exact steps.beginning le

/-- A run with a step to take and none allowed is over its limit. -/
theorem runFor_zero {s past : State} {i : Instr} (limit : Nat)
    (here : s.next = .ok (.instr i past)) : runFor p limit 0 s = .error (.stepLimit limit) := by
  rw [runFor, here]

/-- A run that may take a step takes the next one. -/
theorem runFor_succ {s past : State} {i : Instr} (limit steps : Nat)
    (here : s.next = .ok (.instr i past)) :
    runFor p limit (steps + 1) s =
      match step p past i with
      | .error e => .error e
      | .ok (.finished printed) => .ok printed
      | .ok (.running t) => runFor p limit steps t := by
  rewrite [runFor, here]
  rfl

/-- A run that has nothing more to do needs no steps. -/
theorem runFor_stuck {s : State} {e : RuntimeError} (limit steps : Nat)
    (here : s.next = .error e) : runFor p limit steps s = .error e := by
  cases steps <;> rw [runFor, here]

theorem runFor_ended {s : State} {printed : List Int} (limit steps : Nat)
    (here : s.next = .ok (.finished printed)) : runFor p limit steps s = .ok printed := by
  cases steps <;> rw [runFor, here]

/-- A run that stops after `n` steps gives its result under every limit that allows for them. -/
theorem Stops.runFor_eq {n : Nat} {s : State} {r : Except RuntimeError (List Int)}
    (h : Stops p n s r) (limit : Nat) :
    ∀ steps, runFor p limit steps s = if n ≤ steps then r else .error (.stepLimit limit) := by
  induction h with
  | stuck here =>
    intro steps
    rw [runFor_stuck limit steps here, if_pos (by omega)]
  | ended here =>
    intro steps
    rw [runFor_ended limit steps here, if_pos (by omega)]
  | failing here fails =>
    intro steps
    cases steps with
    | zero => rw [runFor_zero limit here, if_neg (by omega)]
    | succ steps => rw [runFor_succ limit steps here, fails, if_pos (by omega)]
  | finishing here ends =>
    intro steps
    cases steps with
    | zero => rw [runFor_zero limit here, if_neg (by omega)]
    | succ steps => rw [runFor_succ limit steps here, ends, if_pos (by omega)]
  | more here runs _ ih =>
    intro steps
    cases steps with
    | zero => rw [runFor_zero limit here, if_neg (by omega)]
    | succ steps =>
      rw [runFor_succ limit steps here, runs]
      simp only [ih steps, Nat.add_le_add_iff_right]

/-- A run that goes on for more steps than are allowed is over its limit. -/
theorem Survives.runFor_eq {n : Nat} {s : State} (h : Survives p n s) (limit : Nat) :
    ∀ steps < n, runFor p limit steps s = .error (.stepLimit limit) := by
  obtain ⟨t, chain⟩ := h
  induction chain with
  | none s => intro steps lt; omega
  | more here runs _ ih =>
    intro steps lt
    cases steps with
    | zero => exact runFor_zero limit here
    | succ steps =>
      rw [runFor_succ limit steps here, runs]
      exact ih steps (by omega)

end MiniLang.Ir
