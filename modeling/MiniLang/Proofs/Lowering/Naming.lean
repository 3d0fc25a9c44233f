import MiniLang.Lowering.Expression
import MiniLang.Proofs.Ir.Labels

/-!
# Names with numbers

Generated names end in a dot and a number. Text and number can be read off such a name
(`numbered_inj`), so that the places of different scopes, the slots of different operators and the
labels of different constructs differ. `LabelsWithin` collects what follows for a piece of code: its
labels are distinct, and all of them carry numbers of a certain range.
-/

set_option autoImplicit false

namespace MiniLang.Lowering

open Ir

/-- A text with a number behind a dot. -/
def numbered (text : String) (number : Nat) : String := text ++ "." ++ toString number

/-- No digit of a number is a dot. -/
theorem dot_notMem_toDigits (n : Nat) : '.' ∉ Nat.toDigits 10 n := by
  intro h
  have digit := Nat.isDigit_of_mem_toDigits (by decide) (by decide) h
  exact absurd digit (by decide)

/-- Where the last dot of two equal texts stands is the same. -/
theorem append_dot_inj {a b c d : List Char} (hc : '.' ∉ c) (hd : '.' ∉ d)
    (h : a ++ '.' :: c = b ++ '.' :: d) : a = b ∧ c = d := by
  rcases List.append_eq_append_iff.1 h with ⟨e, rfl, rest⟩ | ⟨e, rfl, rest⟩
  · cases e with
    | nil => simp_all
    | cons x e =>
      obtain ⟨-, rfl⟩ := List.cons.inj rest
      exact absurd (by simp) hc
  · cases e with
    | nil => simp_all
    | cons x e =>
      obtain ⟨-, rfl⟩ := List.cons.inj rest
      exact absurd (by simp) hd

/-- A numbered text determines the text and the number. -/
theorem numbered_inj {a b : String} {n m : Nat} :
    numbered a n = numbered b m ↔ a = b ∧ n = m := by
  constructor
  · intro h
    have chars : a.toList ++ '.' :: Nat.toDigits 10 n = b.toList ++ '.' :: Nat.toDigits 10 m := by
      have := congrArg String.toList h
      simpa [numbered, String.toList_append] using this
    obtain ⟨texts, digits⟩ :=
      append_dot_inj (dot_notMem_toDigits n) (dot_notMem_toDigits m) chars
    refine ⟨String.toList_inj.1 texts, ?_⟩
    have := congrArg (fun ds => Nat.ofDigitChars 10 ds 0) digits
    simpa using this
  · rintro ⟨rfl, rfl⟩
    rfl

theorem label_eq_numbered (construct part : String) (number : Nat) :
    label construct part number = numbered (construct ++ "." ++ part) number := rfl

/-- The place of a variable that a scope declares. -/
def placeFor (scope : ScopeId) (name : String) : Place :=
  if scope = globalScope then .global name else .frame (numbered name scope)

theorem placeOf_eq (ref : SymbolRef) (name : String) (span : Span) :
    placeOf (some ref) name span = .ok (placeFor ref.scope name) := by
  by_cases outside : ref.scope = globalScope
  · rw [placeOf, placeFor, if_pos outside, if_pos outside]
  · rw [placeOf, placeFor, if_neg outside, if_neg outside]
    rfl

/-- The labels of a piece of code are distinct and carry numbers from `lo` up to `hi`. -/
structure LabelsWithin (lo hi : Nat) (code : List Instr) : Prop where
  nodup : (labelsOf code).Nodup
  numbers : ∀ l ∈ labelsOf code, ∃ text n, l = numbered text n ∧ lo ≤ n ∧ n < hi

namespace LabelsWithin

variable {lo mid hi : Nat} {code before after : List Instr}

/-- Code without labels. -/
theorem of_nil (h : labelsOf code = []) : LabelsWithin lo hi code := by
  constructor <;> simp [h]

theorem widen {lo' hi' : Nat} (h : LabelsWithin lo hi code) (le : lo' ≤ lo) (ge : hi ≤ hi') :
    LabelsWithin lo' hi' code := by
  refine ⟨h.nodup, fun l mem => ?_⟩
  obtain ⟨text, n, rfl, above, below⟩ := h.numbers l mem
  exact ⟨text, n, rfl, by omega, by omega⟩

/-- A number out of the range is on no label of the code. -/
theorem notMem (h : LabelsWithin lo hi code) {text : String} {n : Nat} (out : n < lo ∨ hi ≤ n) :
    numbered text n ∉ labelsOf code := by
  intro mem
  obtain ⟨text', n', same, above, below⟩ := h.numbers _ mem
  obtain ⟨-, rfl⟩ := numbered_inj.1 same
  omega

theorem append (h : LabelsWithin lo mid before) (h' : LabelsWithin mid hi after) (le : lo ≤ mid)
    (le' : mid ≤ hi) : LabelsWithin lo hi (before ++ after) := by
  constructor
  · rw [labelsOf_append, List.nodup_append]
    refine ⟨h.nodup, h'.nodup, fun a memBefore b memAfter same => ?_⟩
    obtain ⟨text, n, rfl, above, below⟩ := h.numbers a memBefore
    subst same
    exact h'.notMem (.inl below) memAfter
  · intro l mem
    rw [labelsOf_append, List.mem_append] at mem
    rcases mem with mem | mem
    · exact (h.widen le_rfl le').numbers l mem
    · exact (h'.widen le le_rfl).numbers l mem

end LabelsWithin

end MiniLang.Lowering
