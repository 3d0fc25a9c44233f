import MiniLang.Proofs.Ir.Instructions
import MiniLang.Proofs.Semantics.Reference

/-!
# Runs that follow an evaluation

Two programs, generated with and without folding, run along one evaluation of the source program.
`Simulates` says what their runs do for each outcome of it: they get to states that belong to its
result, they stop with its failure, or they go on for as many steps as loops had rounds; folding
never needs more steps. Evaluations that are composed of others are followed by runs that are
composed in the same way (`Simulates.bind`).
-/

set_option autoImplicit false

namespace MiniLang.Semantics

open Ir (State Steps Stops Survives RuntimeError)

/-- The error with which a run stops where an evaluation fails. -/
def Failure.error : Failure → RuntimeError
  | divisionByZero => .arithmetic .divisionByZero
  | overflow => .arithmetic .overflow
  | stackOverflow => .stackOverflow Ir.maxDepth
  | unset name => .uninitialized (.global name)

/-- What a run gives that comes to a result. -/
def Result.ofRun (r : Result) : Except RuntimeError (List Int) := r.mapError Failure.error

/-- The runs of both programs from the given states follow an evaluation with the given outcome:
`good` relates its result to the states they get to, and `allowed` holds of the ways in which it can
fail. Each program is known by whether its constants are folded. -/
def Simulates {α : Type} (P : Bool → Ir.Program) (rounds : Nat) (allowed : Failure → Prop)
    (S : Bool → State) (good : Bool → α → State → Prop) : Outcome α → Prop
  | .done a => ∃ (n : Bool → Nat) (S' : Bool → State), n true ≤ n false ∧
      ∀ b, Steps (P b) (n b) (S b) (S' b) ∧ good b a (S' b)
  | .failed f => allowed f ∧ ∃ n : Bool → Nat, n true ≤ n false ∧
      ∀ b, Stops (P b) (n b) (S b) (.error f.error)
  | .stuck => False
  | .unfinished => ∀ b, Survives (P b) rounds (S b)

namespace Simulates

variable {α β : Type} {P : Bool → Ir.Program} {rounds : Nat} {allowed : Failure → Prop}
  {S S' : Bool → State} {good good' : Bool → α → State → Prop}

/-- The states belong to the result already. -/
theorem here {a : α} (h : ∀ b, good b a (S b)) :
    Simulates P rounds allowed S good (.done a) :=
  ⟨fun _ => 0, S, le_rfl, fun b => ⟨.none _, h b⟩⟩

/-- One step of each program ends its run. -/
theorem stop {f : Failure} (h : allowed f) (k : Nat)
    (stops : ∀ b, Stops (P b) k (S b) (.error f.error)) :
    Simulates P rounds allowed S good (.failed f) :=
  ⟨h, fun _ => k, le_rfl, stops⟩

theorem imp {o : Outcome α} (h : Simulates P rounds allowed S good o)
    (weaker : ∀ b a s, good b a s → good' b a s) : Simulates P rounds allowed S good' o := by
  cases o with
  | done a =>
    obtain ⟨n, S', le, runs⟩ := h
    exact ⟨n, S', le, fun b => ⟨(runs b).1, weaker b a _ (runs b).2⟩⟩
  | failed f => exact h
  | stuck => exact h
  | unfinished => exact h

/-- Less rounds are needed for less steps. -/
theorem mono {o : Outcome α} {fewer : Nat} (h : Simulates P rounds allowed S good o)
    (le : fewer ≤ rounds) : Simulates P fewer allowed S good o := by
  cases o with
  | done a => exact h
  | failed f => exact h
  | stuck => exact h
  | unfinished => exact fun b => (h b).mono le

/-- Steps of both programs before the evaluation is followed; the number of rounds that were
counted may grow with them. -/
theorem steps {o : Outcome α} {k more : Nat} (first : ∀ b, Steps (P b) k (S b) (S' b))
    (h : Simulates P rounds allowed S' good o) (le : more ≤ k + rounds) :
    Simulates P more allowed S good o := by
  cases o with
  | done a =>
    obtain ⟨n, T, fewer, runs⟩ := h
    exact ⟨fun b => k + n b, T, Nat.add_le_add_left fewer k,
      fun b => ⟨(first b).trans (runs b).1, (runs b).2⟩⟩
  | failed f =>
    obtain ⟨ok, n, fewer, runs⟩ := h
    exact ⟨ok, fun b => k + n b, Nat.add_le_add_left fewer k, fun b => (first b).stops (runs b)⟩
  | stuck => exact h
  | unfinished => exact fun b => ((first b).survives (h b)).mono le

/-- Steps of both programs before the evaluation is followed. -/
theorem after {o : Outcome α} {k : Nat} (first : ∀ b, Steps (P b) k (S b) (S' b))
    (h : Simulates P rounds allowed S' good o) : Simulates P rounds allowed S good o :=
  steps first h (Nat.le_add_left ..)

/-- An evaluation that goes on with the result of another. -/
theorem bind {o : Outcome α} {f : α → Outcome β} {goodNext : Bool → β → State → Prop}
    (h : Simulates P rounds allowed S good o)
    (next : ∀ a S', (∀ b, good b a (S' b)) → Simulates P rounds allowed S' goodNext (f a)) :
    Simulates P rounds allowed S goodNext (o.bind f) := by
  cases o with
  | done a =>
    obtain ⟨n, S', le, runs⟩ := h
    have rest := next a S' fun b => (runs b).2
    change Simulates P rounds allowed S goodNext (f a)
    cases outcome : f a with
    | done c =>
      rw [outcome] at rest
      obtain ⟨m, T, le', runs'⟩ := rest
      exact ⟨fun b => n b + m b, T, Nat.add_le_add le le',
        fun b => ⟨(runs b).1.trans (runs' b).1, (runs' b).2⟩⟩
    | failed e =>
      rw [outcome] at rest
      obtain ⟨ok, m, le', runs'⟩ := rest
      exact ⟨ok, fun b => n b + m b, Nat.add_le_add le le', fun b => (runs b).1.stops (runs' b)⟩
    | stuck =>
      rw [outcome] at rest
      exact rest
    | unfinished =>
      rw [outcome] at rest
      exact fun b => ((runs b).1.survives (rest b)).mono (Nat.le_add_left ..)
  | failed e => exact h
  | stuck => exact h
  | unfinished => exact h

/-- Where folding leaves nothing to do, only the other program has to get to the result. -/
theorem folded {a : α} (h : Simulates (fun _ => P false) rounds allowed (fun _ => S false)
    (fun _ => good false) (.done a)) (here : good true a (S true)) :
    Simulates P rounds allowed S good (.done a) := by
  obtain ⟨n, S', -, runs⟩ := h
  refine ⟨fun b => if b then 0 else n false, fun b => if b then S true else S' false,
    Nat.zero_le _, fun b => ?_⟩
  cases b with
  | true => exact ⟨.none _, here⟩
  | false => exact runs false

end Simulates

/-- The composition of two evaluations, opened up. -/
theorem Eval.bind_apply {α β : Type} (x : Eval α) (f : α → Eval β) (m : Memory) :
    (x >>= f) m = (x m).bind fun r => f r.1 r.2 := rfl

theorem Eval.pure_apply {α : Type} (a : α) (m : Memory) : (pure a : Eval α) m = .done (a, m) := rfl

theorem Eval.map_apply {α β : Type} (f : α → β) (x : Eval α) (m : Memory) :
    (f <$> x) m = (x m).bind fun r => .done (f r.1, r.2) := rfl

end MiniLang.Semantics
