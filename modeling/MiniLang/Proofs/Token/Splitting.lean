import MiniLang.Proofs.Token.Lexed

/-!
# Newlines cut texts

A newline ends every lexeme but a run of white space, so that what stands before it and what stands
behind it are read apart: the tokens of the two sides, one after the other, are the tokens of the
whole text (`deliveries_newline`). Behind a newline everything stands as it does at the beginning of
a text, in the same columns, so many bytes and lines further on (`Reads.behind`).
-/

set_option autoImplicit false

namespace MiniLang

open LexemeClass

/-- A span that stands so many bytes and lines further on. -/
def Span.shift (bytes lines : Nat) (a : Span) : Span :=
  ⟨a.start + bytes, a.stop + bytes, a.line + lines, a.column⟩

/-- A delivery whose token stands so many bytes and lines further on. -/
def Delivery.shift (bytes lines : Nat) (d : Delivery) : Delivery :=
  { d with token := { d.token with span := d.token.span.shift bytes lines } }

/-- A diagnostic about what stands so many bytes and lines further on. -/
def Diagnostic.shift (bytes lines : Nat) (x : Diagnostic) : Diagnostic :=
  { x with span := x.span.shift bytes lines }

theorem Delivery.diagnostics_shift (bytes lines : Nat) (d : Delivery) :
    (d.shift bytes lines).diagnostics = d.diagnostics.map (Diagnostic.shift bytes lines) := by
  simp [diagnostics, shift, Diagnostic.of, Diagnostic.shift]

theorem Span.over_newline (line before inside : List Char) :
    Span.over (line ++ '\n' :: before) inside =
      (Span.over before inside).shift (Text.byteLength line + 1) (line.count '\n' + 1) := by
  have one : ('\n' : Char).utf8Size = 1 := by decide
  simp only [Span.over, Span.shift, Text.byteLength_append, Text.byteLength_cons, one,
    List.count_append, List.count_cons_self, Text.lastLine_append_newline, Span.mk.injEq, and_true]
  omega

/-- Behind a newline a text is read as from its beginning. -/
theorem Reads.behind {before rest : List Char} {ds : List Delivery} (h : Reads before rest ds)
    (line : List Char) : Reads (line ++ '\n' :: before) rest
      (ds.map (Delivery.shift (Text.byteLength line + 1) (line.count '\n' + 1))) := by
  induction h with
  | @ending before =>
    have moved := Span.over_newline line before []
    simp only [List.map_cons, List.map_nil, Delivery.shift, Token.endAt, ← moved]
    exact .ending
  | @separator before text rest ds found more ih =>
    refine .separator found ?_
    rw [List.append_assoc, List.cons_append]
    exact ih
  | @token before text rest kind problem ds found more ih =>
    have moved := Span.over_newline line before text
    simp only [List.map_cons, Delivery.shift, ← moved]
    refine .token found ?_
    rw [List.append_assoc, List.cons_append]
    exact ih

/-! ## Pieces before a newline -/

theorem isPrefixOf?_newline {opening : List Char} (inLine : '\n' ∉ opening)
    (cs rest : List Char) : opening.isPrefixOf? (cs ++ '\n' :: rest) =
      (opening.isPrefixOf? cs).map (· ++ '\n' :: rest) := by
  induction opening generalizing cs with
  | nil => rfl
  | cons c opening ih =>
    obtain ⟨ne, inLine⟩ := not_or.1 (mt List.mem_cons.2 inLine)
    cases cs with
    | nil => simp [List.isPrefixOf?, Ne.symm ne]
    | cons d cs =>
      simp only [List.cons_append, List.isPrefixOf?, ih inLine]
      split <;> rfl

namespace LexemeClass

/-- The text that every lexeme of a class begins with. -/
def opening : LexemeClass → List Char
  | comment text | sign text _ => text
  | name | number | blank => []

theorem newline_notMem_opening : ∀ cls ∈ table, '\n' ∉ cls.opening := by decide

/-- Only white space goes on behind a newline. -/
theorem take?_newline {cls : LexemeClass} (mem : cls ∈ table) (h : cls ≠ blank)
    (cs rest : List Char) : cls.take? (cs ++ '\n' :: rest) = cls.take? cs := by
  have inLine := newline_notMem_opening cls mem
  cases cls with
  | name =>
    cases cs with
    | nil => rfl
    | cons c cs =>
      have ends : isNamePart '\n' = false := by decide
      simp only [List.cons_append, take?, Text.takeWhile_append_cons ends]
  | number =>
    have ends : Integer.isDigit '\n' = false := by decide
    simp only [take?, run?, Text.takeWhile_append_cons ends]
  | blank => exact absurd rfl h
  | comment opening =>
    have inText : '\n' ∉ opening := inLine
    rw [take?, take?, isPrefixOf?_newline inText, Option.map_map]
    congr 1
    funext behind
    simp [Text.takeWhile_append_cons]
  | sign text kind =>
    have inText : '\n' ∉ text := inLine
    rw [take?, take?, isPrefixOf?_newline inText, Option.map_map]
    rfl

theorem firstMatch?_congr {cs cs' : List Char} {classes : List LexemeClass}
    (same : ∀ cls ∈ classes, cls.take? cs = cls.take? cs') :
    firstMatch? cs classes = firstMatch? cs' classes := by
  induction classes with
  | nil => rfl
  | cons first classes ih =>
    rw [firstMatch?, firstMatch?, same first List.mem_cons_self,
      ih fun cls mem => same cls (List.mem_cons_of_mem _ mem)]

end LexemeClass

/-- The first piece of a text ends before a newline, unless it is white space. -/
theorem firstPiece?_newline {c : Char} (solid : Text.isBlank c = false) (cs rest : List Char) :
    firstPiece? (c :: cs ++ '\n' :: rest) = firstPiece? (c :: cs) := by
  have same : firstMatch? (c :: cs ++ '\n' :: rest) table = firstMatch? (c :: cs) table := by
    refine firstMatch?_congr fun cls mem => ?_
    by_cases h : cls = blank
    · simp [h, take?, run?, solid]
    · exact take?_newline mem h _ _
  simp only [List.cons_append] at same ⊢
  simp only [firstPiece?, same]

theorem firstPiece?_blank {c : Char} (is : Text.isBlank c = true) (cs : List Char) :
    firstPiece? (c :: cs) = some (c :: cs.takeWhile Text.isBlank, none) := by
  simp only [firstPiece?, firstMatch?_blank is, meaning]

/-- A piece is white space, or it does not reach across a newline that stands further on. -/
theorem blanks_or_firstPiece?_newline {text rest : List Char}
    {becomes : Option (TokenKind × Option Problem)}
    (found : firstPiece? (text ++ rest) = some (text, becomes)) (behind : List Char) :
    becomes = none ∧ (∀ c ∈ text, Text.isBlank c = true) ∨
      firstPiece? (text ++ (rest ++ '\n' :: behind)) = some (text, becomes) := by
  obtain ⟨c, text, rfl⟩ := List.exists_cons_of_ne_nil (cut_of_firstPiece? found).1
  cases is : Text.isBlank c with
  | true =>
    have all := (firstPiece?_blank is _).symm.trans found
    obtain ⟨same, rfl⟩ := Prod.mk.inj (Option.some.inj all)
    refine .inl ⟨rfl, List.forall_mem_cons.2 ⟨is, fun d mem => ?_⟩⟩
    rw [← (List.cons.inj same).2] at mem
    exact List.all_eq_true.1 List.all_takeWhile d mem
  | false =>
    refine .inr ?_
    rw [← List.append_assoc, List.cons_append, firstPiece?_newline is]
    exact found

namespace Reads

variable {before rest : List Char} {ds : List Delivery}

/-! ## White space before a newline -/

/-- What is read behind a separator. -/
theorem behind_separator {text : List Char} (h : Reads before rest ds)
    (found : firstPiece? rest = some (text, none)) :
    ∃ after, rest = text ++ after ∧ Reads (before ++ text) after ds := by
  cases h with
  | ending => cases found
  | separator first more =>
    cases first.symm.trans found
    exact ⟨_, rfl, more⟩
  | token first more => cases first.symm.trans found

/-- White space at the beginning can be left out. -/
theorem dropBlanks (h : Reads before rest ds) :
    Reads (before ++ rest.takeWhile Text.isBlank) (rest.dropWhile Text.isBlank) ds := by
  cases rest with
  | nil => simpa using h
  | cons c rest =>
    by_cases is : Text.isBlank c = true
    · obtain ⟨after, cut, more⟩ := h.behind_separator (firstPiece?_blank is rest)
      have same : rest.takeWhile Text.isBlank ++ rest.dropWhile Text.isBlank = _ :=
        List.takeWhile_append_dropWhile.trans (List.cons.inj cut).2
      rw [List.takeWhile_cons_of_pos is, List.dropWhile_cons_of_pos is,
        List.append_cancel_left same]
      exact more
    · rw [List.takeWhile_cons_of_neg is, List.dropWhile_cons_of_neg is, List.append_nil]
      exact h

theorem blank {c : Char} (is : Text.isBlank c = true) (h : Reads (before ++ [c]) rest ds) :
    Reads before (c :: rest) ds := by
  have whole : rest.takeWhile Text.isBlank ++ rest.dropWhile Text.isBlank = rest :=
    List.takeWhile_append_dropWhile
  have found := firstPiece?_blank is rest
  have more := h.dropBlanks
  rw [List.append_assoc, List.singleton_append] at more
  rw [← whole, ← List.cons_append]
  rw [← whole, ← List.cons_append, whole] at found
  exact .separator found more

theorem blanks {gap : List Char} (all : ∀ c ∈ gap, Text.isBlank c = true)
    (h : Reads (before ++ gap) rest ds) : Reads before (gap ++ rest) ds := by
  induction gap generalizing before with
  | nil => simpa using h
  | cons c gap ih =>
    have others : ∀ d ∈ gap, Text.isBlank d = true := fun d mem =>
      all d (List.mem_cons_of_mem c mem)
    refine blank (all c List.mem_cons_self) (ih others ?_)
    rw [List.append_assoc]
    exact h

/-! ## Both sides of a newline -/

/-- What stands before a newline is read as if the text ended there. -/
theorem ahead (h : Reads before rest ds) {behind : List Char} {others : List Delivery}
    (more : Reads (before ++ rest ++ ['\n']) behind others) :
    ∃ front span, ds = front ++ [{ token := .endAt span }] ∧
      Reads before (rest ++ '\n' :: behind) (front ++ others) := by
  induction h with
  | ending =>
    rw [List.append_nil] at more
    exact ⟨[], _, rfl, blank (by decide) more⟩
  | @separator before text rest ds found _ ih =>
    rw [← List.append_assoc] at more
    obtain ⟨front, span, same, reads⟩ := ih more
    refine ⟨front, span, same, ?_⟩
    rw [List.append_assoc]
    rcases blanks_or_firstPiece?_newline found behind with ⟨-, all⟩ | whole
    · exact blanks all reads
    · exact .separator whole reads
  | @token before text rest kind problem ds found _ ih =>
    rw [← List.append_assoc] at more
    obtain ⟨front, span, rfl, reads⟩ := ih more
    refine ⟨_ :: front, span, rfl, ?_⟩
    rw [List.append_assoc]
    rcases blanks_or_firstPiece?_newline found behind with ⟨none, -⟩ | whole
    · cases none
    · exact .token whole reads

end Reads

/-- The tokens of a text with a newline in it are those of what stands before it, up to the one that
ends the input, and then those of what stands behind it, so many bytes and lines further on; and so
are the reports. -/
theorem deliveries_newline (before behind : List Char) :
    ∃ front span, deliveries before = front ++ [{ token := .endAt span }] ∧
      deliveries (before ++ '\n' :: behind) = front ++ (deliveries behind).map
        (Delivery.shift (Text.byteLength before + 1) (before.count '\n' + 1)) ∧
      tokenReports (before ++ '\n' :: behind) =
        tokenReports before ++ (tokenReports behind).map
          (Diagnostic.shift (Text.byteLength before + 1) (before.count '\n' + 1)) := by
  have moved := (reads_deliveries behind).behind before
  obtain ⟨front, span, same, reads⟩ := (reads_deliveries before).ahead moved
  have whole := reads.eq_deliveries
  refine ⟨front, span, same, whole.symm, ?_⟩
  simp only [tokenReports_eq, ← whole, same, List.flatMap_append, List.flatMap_map,
    Delivery.diagnostics_shift, List.map_flatMap]
  simp [Delivery.diagnostics]

end MiniLang
