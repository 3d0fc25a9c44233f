/-!
# Tables

A table holds at most one value for each key, in the order in which the keys first got one. What a
table holds is what `get?` finds: writing a key changes the answer for that key alone
(`get?_insert`).
-/

set_option autoImplicit false

namespace MiniLang

/-- Values under keys, in the order in which the keys came in. -/
structure Table (κ ν : Type) where
  entries : List (κ × ν) := []
  deriving Repr, Inhabited

namespace Table

variable {κ ν : Type} [DecidableEq κ]

/-- The table without keys. -/
def empty : Table κ ν := {}

/-- The value under a key among pairs. -/
def find? (key : κ) : List (κ × ν) → Option ν
  | [] => none
  | (k, v) :: rest => if k = key then some v else find? key rest

/-- The pairs after a key got a value: in place if the key is there, else at the end. -/
def write (key : κ) (value : ν) : List (κ × ν) → List (κ × ν)
  | [] => [(key, value)]
  | (k, v) :: rest => if k = key then (key, value) :: rest else (k, v) :: write key value rest

/-- The value under a key. -/
def get? (t : Table κ ν) (key : κ) : Option ν := find? key t.entries

/-- The table in which a key has the given value. -/
def insert (t : Table κ ν) (key : κ) (value : ν) : Table κ ν := ⟨write key value t.entries⟩

/-- The keys of a table. -/
def keys (t : Table κ ν) : List κ := t.entries.map Prod.fst

@[simp] theorem get?_empty (key : κ) : (empty : Table κ ν).get? key = none := rfl

/-- Writing a key changes what is found under that key and nothing else. -/
theorem get?_insert (t : Table κ ν) (key other : κ) (value : ν) :
    (t.insert key value).get? other = if key = other then some value else t.get? other := by
  unfold insert get?
  induction t.entries with
  | nil => rfl
  | cons entry rest ih =>
    obtain ⟨k, v⟩ := entry
    unfold write
    by_cases same : k = key
    · subst same
      by_cases found : k = other <;> simp [find?, found]
    · by_cases found : k = other
      · subst found
        simp [find?, same, Ne.symm same]
      · simp only [if_neg same, find?, if_neg found]
        exact ih

@[simp] theorem get?_insert_self (t : Table κ ν) (key : κ) (value : ν) :
    (t.insert key value).get? key = some value := by
  rw [get?_insert, if_pos rfl]

theorem get?_insert_of_ne (t : Table κ ν) {key other : κ} (value : ν) (h : key ≠ other) :
    (t.insert key value).get? other = t.get? other := by
  rw [get?_insert, if_neg h]

/-- A key has a value exactly if it is one of the keys. -/
theorem get?_isSome_iff (t : Table κ ν) (key : κ) : (t.get? key).isSome ↔ key ∈ t.keys := by
  unfold get? keys
  induction t.entries with
  | nil => simp [find?]
  | cons entry rest ih =>
    obtain ⟨k, v⟩ := entry
    by_cases same : k = key
    · simp [find?, same]
    · simp [find?, same, ih, Ne.symm same]

end Table

end MiniLang
