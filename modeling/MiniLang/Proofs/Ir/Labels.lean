import Mathlib.Tactic
import MiniLang.Ir.Machine

/-!
# Labels

The labels of a piece of code, and where a jump to one of them leads: if no label repeats, to the
label and the code after it (`codeAt?_of_suffix`).
-/

set_option autoImplicit false

namespace MiniLang.Ir

/-- The labels in a piece of code, in order. -/
def labelsOf (code : List Instr) : List String := code.filterMap Instr.label?

@[simp] theorem labelsOf_nil : labelsOf [] = [] := rfl

@[simp] theorem labelsOf_append (a b : List Instr) : labelsOf (a ++ b) = labelsOf a ++ labelsOf b :=
  List.filterMap_append

@[simp] theorem labelsOf_label (name : String) (code : List Instr) :
    labelsOf (.label name :: code) = name :: labelsOf code := rfl

/-- Only labels count. -/
theorem labelsOf_cons (i : Instr) (code : List Instr) :
    labelsOf (i :: code) = i.label?.toList ++ labelsOf code := by
  cases h : i.label? <;> simp [labelsOf, h]

/-- Code from a label on is found by the label if the code after it does not repeat the label. -/
theorem codeAt?_eq {name : String} {after : List Instr} (h : name ∉ labelsOf after) :
    ∀ before : List Instr,
      codeAt? name (before ++ .label name :: after) = some (.label name :: after)
  | [] => by
    have none_after : codeAt? name after = none := by
      induction after with
      | nil => rfl
      | cons i after ih =>
        have notHere : i.label? ≠ some name := by
          intro here
          exact h (by simp [labelsOf, here])
        have notLater : name ∉ labelsOf after := fun later =>
          h (List.mem_filterMap.2 (by
            obtain ⟨j, mem, eq⟩ := List.mem_filterMap.1 later
            exact ⟨j, List.mem_cons_of_mem _ mem, eq⟩))
        rw [codeAt?, ih notLater]
        simp [notHere]
    simp [codeAt?, none_after, Instr.label?]
  | i :: before => by
    rw [List.cons_append, codeAt?, codeAt?_eq h before]

/-- If no label of a function repeats, a jump to a label gets to the code from there on. -/
theorem codeAt?_of_suffix {name : String} {after code : List Instr}
    (h : .label name :: after <:+ code) (nodup : (labelsOf code).Nodup) :
    codeAt? name code = some (.label name :: after) := by
  obtain ⟨before, rfl⟩ := h
  refine codeAt?_eq ?_ before
  rw [labelsOf_append, labelsOf_label, List.nodup_append] at nodup
  exact (List.nodup_cons.1 nodup.2.1).1

end MiniLang.Ir
