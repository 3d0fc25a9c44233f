import MiniLang.Text.Bytes

/-!
# Lines of a text

A text is a list of lines, each with the newline that ends it; only the last line may lack one.
`lines_flatten` says that the lines, put together, are the text. Looking up a byte offset gives the
line that holds it, without its terminator, and how many bytes of the line come before the offset.
-/

set_option autoImplicit false

namespace MiniLang.Text

/-- The lines of a text, each including the newline that ends it. -/
def lines : List Char → List (List Char)
  | [] => []
  | c :: cs =>
    if c = '\n' then
      ['\n'] :: lines cs
    else
      match lines cs with
      | [] => [[c]]
      | line :: rest => (c :: line) :: rest

/-- Nothing is lost when a text is cut into lines. -/
theorem lines_flatten (cs : List Char) : (lines cs).flatten = cs := by
  induction cs with
  | nil => rfl
  | cons c cs ih =>
    rw [lines]
    split
    next newline => simp [newline, ih]
    next =>
      split
      next h => rw [h] at ih; simp [← ih]
      next line rest h => rw [h] at ih; simp [← ih]

/-- A line without the newlines and carriage returns at its end. -/
def dropTerminator (line : List Char) : List Char :=
  (line.reverse.dropWhile fun c => c = '\n' || c = '\r').reverse

/-- The characters after the last newline of a text. -/
def lastLine (cs : List Char) : List Char := (cs.reverse.takeWhile (· ≠ '\n')).reverse

/-- The first of the given lines that reaches past byte offset `position`, and the offset inside
it. -/
def findLine? : List (List Char) → Nat → Option (List Char × Nat)
  | [], _ => none
  | line :: rest, position =>
    if position < byteLength line then
      some (dropTerminator line, position)
    else
      findLine? rest (position - byteLength line)

/-- The line that holds byte offset `position` of a text, and the offset inside that line.
The offset at the very end of the text belongs to what follows the last newline. -/
def lineAt? (cs : List Char) (position : Nat) : Option (List Char × Nat) :=
  if byteLength cs < position then
    none
  else
    some ((findLine? (lines cs) position).getD (lastLine cs, byteLength (lastLine cs)))

/-- An offset has a line exactly when it does not lie past the end of the text. -/
theorem lineAt?_isSome_iff (cs : List Char) (position : Nat) :
    (lineAt? cs position).isSome ↔ position ≤ byteLength cs := by
  unfold lineAt?
  split <;> simp_all

end MiniLang.Text
