/-!
# Byte offsets in a text

Offsets in spans count the bytes of the text's UTF-8 form, while texts are read character by
character. This module measures a text in bytes and cuts it at byte offsets; a cut exists only
where a character ends, and `splitAtByte?_append` says that it then loses nothing.
-/

set_option autoImplicit false

namespace MiniLang.Text

/-- The number of bytes that the UTF-8 form of `cs` takes. -/
def byteLength : List Char → Nat
  | [] => 0
  | c :: cs => c.utf8Size + byteLength cs

@[simp] theorem byteLength_nil : byteLength [] = 0 := rfl

@[simp] theorem byteLength_cons (c : Char) (cs : List Char) :
    byteLength (c :: cs) = c.utf8Size + byteLength cs := rfl

@[simp] theorem byteLength_append (as bs : List Char) :
    byteLength (as ++ bs) = byteLength as + byteLength bs := by
  induction as with
  | nil => simp
  | cons a as ih => rw [List.cons_append, byteLength_cons, byteLength_cons, ih, Nat.add_assoc]

/-- The text before and after byte offset `n`, if a character ends there. -/
def splitAtByte? : List Char → Nat → Option (List Char × List Char)
  | cs, 0 => some ([], cs)
  | [], _ + 1 => none
  | c :: cs, n + 1 =>
    if c.utf8Size ≤ n + 1 then
      (splitAtByte? cs (n + 1 - c.utf8Size)).map fun (before, after) => (c :: before, after)
    else
      none

/-- The two sides of a cut, put together again, are the text, and the first side has the length
asked for. -/
theorem splitAtByte?_append {cs before after : List Char} {n : Nat}
    (h : splitAtByte? cs n = some (before, after)) :
    cs = before ++ after ∧ byteLength before = n := by
  fun_induction splitAtByte? cs n generalizing before after with
  | case1 cs => simp_all
  | case2 => simp at h
  | case3 c cs n fits ih =>
    obtain ⟨⟨b, a⟩, cut, same⟩ := Option.map_eq_some_iff.1 h
    obtain ⟨rfl, rfl⟩ := Prod.mk.inj same
    obtain ⟨rfl, len⟩ := ih cut
    exact ⟨rfl, by rw [byteLength_cons, len]; omega⟩
  | case4 => simp at h

/-- The text from byte offset `start` up to byte offset `stop`, if both are ends of characters in
this order. -/
def sliceBytes? (cs : List Char) (start stop : Nat) : Option (List Char) := do
  if stop < start then failure
  let (_, after) ← splitAtByte? cs start
  let (inside, _) ← splitAtByte? after (stop - start)
  return inside

/-- The text after its first `n` bytes; a character that begins among them is dropped whole. -/
def dropBytes : List Char → Nat → List Char
  | cs, 0 => cs
  | [], _ + 1 => []
  | c :: cs, n + 1 => dropBytes cs (n + 1 - c.utf8Size)

/-- Dropping exactly the bytes of a text's beginning leaves the rest of it. -/
theorem dropBytes_append (as bs : List Char) : dropBytes (as ++ bs) (byteLength as) = bs := by
  induction as with
  | nil => cases bs <;> rfl
  | cons c as ih =>
    obtain ⟨n, h⟩ : ∃ n, byteLength (c :: as) = n + 1 :=
      ⟨byteLength (c :: as) - 1, by have := c.utf8Size_pos; simp; omega⟩
    rw [h, List.cons_append, dropBytes, ← h, byteLength_cons, Nat.add_sub_cancel_left, ih]

end MiniLang.Text
