import Mathlib.Tactic
import MiniLang.Proofs.Syntax.Grammar
import MiniLang.Proofs.Token.Reading

/-!
# Texts without problems

`Scans` says which terminals a text is made of when no problem is found in it. It has no cursor and
no bound, and one rule for each way in which such a text can begin: with blanks, with a sign, with a
word, with a number. Where a lexeme ends depends on what follows it, so every rule is about a text
with all that comes behind. `deliveries_of_scans` is the bridge to the reader of tokens.
-/

set_option autoImplicit false

namespace MiniLang

open LexemeClass

/-- The terminals that a text is made of, when there is no problem in it. -/
inductive Scans : List Char → List Terminal → Prop
  | nil : Scans [] []
  | separator {cs lexeme rest : List Char} {cls : LexemeClass} {ts : List Terminal}
      (found : firstMatch? cs table = some (cls, lexeme)) (skip : cls.meaning lexeme = none)
      (cut : cs = lexeme ++ rest) (more : Scans rest ts) : Scans cs ts
  | lexeme {cs lexeme rest : List Char} {cls : LexemeClass} {kind : TokenKind}
      {ts : List Terminal} (found : firstMatch? cs table = some (cls, lexeme))
      (means : cls.meaning lexeme = some (kind, none)) (cut : cs = lexeme ++ rest)
      (more : Scans rest ts) :
      Scans cs (Token.terminal ⟨kind, String.ofList lexeme, .origin⟩ :: ts)

/-- A text without problems is read as its terminals, wherever it stands. -/
theorem Scans.reads {rest : List Char} {ts : List Terminal} (h : Scans rest ts)
    (before : List Char) : ∃ ds, Reads before rest ds ∧
      (∀ x ∈ ds, x.problem = none ∧ x.cancels = false) ∧
      terminals (ds.map Delivery.token) = ts := by
  induction h generalizing before with
  | nil => exact ⟨_, .ending, by simp, rfl⟩
  | separator found skip cut more ih =>
    obtain ⟨ds, reads, all⟩ := ih (before ++ _)
    subst cut
    exact ⟨ds, .separator ((firstPiece?_of_firstMatch? found).trans (by rw [skip])) reads, all⟩
  | lexeme found means cut more ih =>
    obtain ⟨ds, reads, quiet, others⟩ := ih (before ++ _)
    subst cut
    have piece := (firstPiece?_of_firstMatch? found).trans (by rw [means])
    refine ⟨_, .token piece reads, List.forall_mem_cons.2 ⟨⟨rfl, rfl⟩, quiet⟩, ?_⟩
    rw [List.map_cons, terminals_cons (ne_endOfInput_of_firstPiece? piece)]
    exact congrArg (_ :: ·) others

/-- The tokens of a text without problems are its terminals, and they bring no problem along. -/
theorem deliveries_of_scans {source : List Char} {ts : List Terminal} (h : Scans source ts) :
    (∀ x ∈ deliveries source, x.problem = none ∧ x.cancels = false) ∧
      terminals ((deliveries source).map Delivery.token) = ts := by
  obtain ⟨ds, reads, all⟩ := h.reads []
  rw [← reads.eq_deliveries]
  exact all

/-! ## Beginnings of texts -/

/-- No word goes on with the text. -/
def WordEnds (cs : List Char) : Prop := ∀ c ∈ cs.head?, isNamePart c = false

/-- No sign goes on with the text. -/
def SignEnds (cs : List Char) : Prop := ∀ c ∈ cs.head?, c ∉ ['=', '>', '/']

theorem wordEnds_cons {c : Char} {cs : List Char} (h : isNamePart c = false) :
    WordEnds (c :: cs) := fun _ mem => Option.some.inj mem ▸ h

theorem signEnds_cons {c : Char} {cs : List Char} (h : c ∉ ['=', '>', '/']) :
    SignEnds (c :: cs) := fun _ mem => Option.some.inj mem ▸ h

theorem takeWhile_append_of_all {p : Char → Bool} {cs rest : List Char}
    (all : ∀ c ∈ cs, p c = true) (ends : ∀ c ∈ rest.head?, p c = false) :
    (cs ++ rest).takeWhile p = cs := by
  rw [List.takeWhile_append_of_pos all]
  cases rest with
  | nil => simp
  | cons c rest => rw [List.takeWhile_cons_of_neg (by simp [ends c rfl]), List.append_nil]

namespace LexemeClass

variable {c : Char} {cs rest : List Char}

/-- A word ends where none goes on. -/
theorem firstMatch?_name (start : isNameStart c = true) (parts : ∀ d ∈ cs, isNamePart d = true)
    (ends : WordEnds rest) :
    firstMatch? (c :: cs ++ rest) table = some (name, c :: cs) := by
  have whole : name.take? (c :: cs ++ rest) = some (c :: cs) := by
    simp only [List.cons_append, take?, start, ↓reduceIte, takeWhile_append_of_all parts ends]
  simp only [table, firstMatch?, whole]

theorem isDigit_iff : Integer.isDigit c = true ↔ 48 ≤ c.toNat ∧ c.toNat ≤ 57 := by
  simp only [Integer.isDigit, Bool.and_eq_true, decide_eq_true_eq, Char.le_def,
    UInt32.le_iff_toNat_le]
  rfl

theorem isNameStart_iff : isNameStart c = true ↔
    (97 ≤ c.toNat ∧ c.toNat ≤ 122) ∨ (65 ≤ c.toNat ∧ c.toNat ≤ 90) ∨ c.toNat = 95 := by
  have underscore : c = '_' ↔ c.toNat = 95 := ⟨fun h => h ▸ rfl, fun h => Char.toNat_inj.1 h⟩
  simp only [isNameStart, Bool.or_eq_true, Bool.and_eq_true, decide_eq_true_eq, Char.le_def,
    UInt32.le_iff_toNat_le, beq_iff_eq, underscore, or_assoc]
  rfl

theorem isNameStart_of_isDigit (digit : Integer.isDigit c = true) : isNameStart c = false := by
  rw [← Bool.not_eq_true, isNameStart_iff]
  rw [isDigit_iff] at digit
  omega

theorem isNamePart_of_isBlank (is : Text.isBlank c = true) : isNamePart c = false := by
  rw [← Bool.not_eq_true]
  simp only [isNamePart, Bool.or_eq_true, isDigit_iff, isNameStart_iff]
  simp only [Text.isBlank, Bool.or_eq_true, Bool.and_eq_true, decide_eq_true_eq,
    beq_iff_eq] at is
  omega

/-- A number ends where no word goes on. -/
theorem firstMatch?_number (nonempty : cs ≠ []) (digits : ∀ d ∈ cs, Integer.isDigit d = true)
    (ends : WordEnds rest) : firstMatch? (cs ++ rest) table = some (number, cs) := by
  obtain ⟨c, cs, rfl⟩ := List.exists_cons_of_ne_nil nonempty
  have noName : name.take? (c :: cs ++ rest) = none := by
    simp [take?, isNameStart_of_isDigit (digits c List.mem_cons_self)]
  have whole : number.take? (c :: cs ++ rest) = some (c :: cs) := by
    have stop : ∀ d ∈ rest.head?, Integer.isDigit d = false := fun d mem =>
      (Bool.or_eq_false_iff.1 (ends d mem)).2
    simp only [take?, run?, takeWhile_append_of_all digits stop]
  simp only [table, firstMatch?, noName, whole]

theorem firstMatch?_blank (is : Text.isBlank c = true) :
    firstMatch? (c :: cs) table = some (blank, c :: cs.takeWhile Text.isBlank) := by
  obtain ⟨noStart, noDigit⟩ := Bool.or_eq_false_iff.1 (isNamePart_of_isBlank is)
  simp [table, firstMatch?, take?, run?, is, noStart, noDigit]

/-- Whether no lexeme of a class stands where the given sign does, whatever sign ends behind it. -/
def clearOf (text : List Char) : LexemeClass → Bool
  | name => !text.head?.any isNameStart
  | number => !text.head?.any Integer.isDigit
  | blank => !text.head?.any Text.isBlank
  | comment opening | sign opening _ =>
    !opening.isPrefixOf text &&
      (!text.isPrefixOf opening || (opening.drop text.length).head?.any (· ∈ ['=', '>', '/']))

/-- Every class that is tried before a sign keeps clear of it. -/
theorem pairwise_clearOf : table.Pairwise fun earlier later =>
    (match later with
      | sign text _ => earlier.clearOf text
      | _ => true) = true := by
  decide

theorem not_prefix_of_clear {text opening : List Char} (ends : SignEnds rest)
    (clear : (!opening.isPrefixOf text &&
      (!text.isPrefixOf opening ||
        (opening.drop text.length).head?.any (· ∈ ['=', '>', '/']))) = true) :
    opening.isPrefixOf? (text ++ rest) = none := by
  cases cut : opening.isPrefixOf? (text ++ rest) with
  | none => rfl
  | some after =>
    have same := List.isPrefixOf?_eq_some_iff_append_eq.1 cut
    simp only [Bool.and_eq_true, Bool.not_eq_true', Bool.or_eq_true] at clear
    obtain ⟨notPrefix, longer⟩ := clear
    rcases List.append_eq_append_iff.1 same with ⟨more, split, -⟩ | ⟨more, split, split'⟩
    · refine absurd ?_ (Bool.eq_false_iff.1 notPrefix)
      rw [split]
      exact List.isPrefixOf_iff_prefix.2 (List.prefix_append ..)
    · subst split
      cases more with
      | nil =>
        have self : text.isPrefixOf text = true := List.isPrefixOf_iff_prefix.2 List.prefix_rfl
        rw [List.append_nil, self] at notPrefix
        cases notPrefix
      | cons d more =>
        have begins : text.isPrefixOf (text ++ d :: more) = true :=
          List.isPrefixOf_iff_prefix.2 (List.prefix_append ..)
        rw [begins] at longer
        have := ends d (by rw [split']; rfl)
        simp at longer this
        tauto

theorem take?_eq_none_of_clear {text : List Char} {cls : LexemeClass} (ends : SignEnds rest)
    (nonempty : text ≠ []) (clear : cls.clearOf text = true) : cls.take? (text ++ rest) = none := by
  obtain ⟨c, cs, rfl⟩ := List.exists_cons_of_ne_nil nonempty
  cases cls with
  | name => simp_all [clearOf, take?]
  | number => simp_all [clearOf, take?, run?]
  | blank => simp_all [clearOf, take?, run?]
  | comment opening => rw [take?, not_prefix_of_clear ends clear, Option.map_none]
  | sign opening kind => rw [take?, not_prefix_of_clear ends clear, Option.map_none]

theorem firstMatch?_of_none {before after : List LexemeClass} {cls : LexemeClass}
    {lexeme : List Char} (others : ∀ x ∈ before, x.take? cs = none)
    (found : cls.take? cs = some lexeme) :
    firstMatch? cs (before ++ cls :: after) = some (cls, lexeme) := by
  induction before with
  | nil => simp only [List.nil_append, firstMatch?, found]
  | cons x before ih =>
    simp only [List.cons_append, firstMatch?, others x List.mem_cons_self]
    exact ih fun y mem => others y (List.mem_cons_of_mem _ mem)

/-- A sign ends where none goes on. -/
theorem firstMatch?_sign {text : List Char} {kind : TokenKind} (mem : sign text kind ∈ table)
    (ends : SignEnds rest) : firstMatch? (text ++ rest) table = some (sign text kind, text) := by
  have here : (sign text kind).take? (text ++ rest) = some text := by
    rw [take?, List.isPrefixOf?_eq_some_iff_append_eq.2 rfl, Option.map_some]
  have nonempty : text ≠ [] := ne_nil_of_take? mem here
  obtain ⟨before, after, split⟩ := List.append_of_mem mem
  have clear := pairwise_clearOf
  rw [split] at clear ⊢
  refine firstMatch?_of_none (fun x memBefore => ?_) here
  exact take?_eq_none_of_clear ends nonempty
    ((List.pairwise_append.1 clear).2.2 x memBefore _ List.mem_cons_self)
/-- Signs of one character that no longer sign begins with. -/
def punctuation : List (Char × TokenKind) :=
  [('\x7b', .openCurly), ('\x7d', .closeCurly), ('(', .openParen), (')', .closeParen),
    (',', .comma), (';', .semicolon), (':', .colon)]

theorem firstMatch?_punctuation {kind : TokenKind} (found : punctuation.lookup c = some kind) :
    firstMatch? (c :: rest) table = some (sign [c] kind, [c]) := by
  have mem : (c, kind) ∈ punctuation := mem_of_lookup found
  simp only [punctuation, List.mem_cons, Prod.mk.injEq, List.not_mem_nil, or_false] at mem
  rcases mem with ⟨rfl, rfl⟩ | ⟨rfl, rfl⟩ | ⟨rfl, rfl⟩ | ⟨rfl, rfl⟩ | ⟨rfl, rfl⟩ | ⟨rfl, rfl⟩ |
    ⟨rfl, rfl⟩ <;> rfl

end LexemeClass

/-! ## Rules for texts -/

namespace Scans

variable {c : Char} {cs rest : List Char} {ts : List Terminal}

theorem dropBlanks (h : Scans cs ts) : Scans (cs.dropWhile Text.isBlank) ts := by
  cases cs with
  | nil => exact h
  | cons c cs =>
    by_cases is : Text.isBlank c = true
    · -- the text begins with all of these blanks, so that they are what was skipped first
      have all : firstMatch? (c :: cs) table = _ := firstMatch?_blank is
      cases h with
      | separator found skip cut more =>
        rw [all] at found
        cases found
        rw [List.dropWhile_cons_of_pos is]
        have same : cs.takeWhile Text.isBlank ++ cs.dropWhile Text.isBlank = _ :=
          List.takeWhile_append_dropWhile.trans (List.cons.inj cut).2
        rw [List.append_cancel_left same]
        exact more
      | lexeme found means _ _ =>
        rw [all] at found
        cases found
        cases means
    · rw [List.dropWhile_cons_of_neg is]
      exact h

theorem blank (is : Text.isBlank c = true) (more : Scans cs ts) : Scans (c :: cs) ts :=
  .separator (firstMatch?_blank is) rfl
    (congrArg (c :: ·) (List.takeWhile_append_dropWhile (p := Text.isBlank)).symm) more.dropBlanks

/-- No sign is a name or number. -/
theorem terminal_sign {text : List Char} {kind : TokenKind} (mem : sign text kind ∈ table)
    (shown : String) (span : Span) : Token.terminal ⟨kind, shown, span⟩ = .fixed kind := by
  unfold Token.terminal
  split
  next same =>
    obtain rfl : kind = .identifier := same
    simp [table] at mem
  next same =>
    obtain rfl : kind = .integer := same
    simp [table] at mem
  next => rfl

theorem sign {text : List Char} {kind : TokenKind} (mem : LexemeClass.sign text kind ∈ table)
    (ends : SignEnds rest) (more : Scans rest ts) :
    Scans (text ++ rest) (.fixed kind :: ts) := by
  rw [← terminal_sign mem (String.ofList text) .origin]
  exact .lexeme (firstMatch?_sign mem ends) rfl rfl more

theorem punctuation {kind : TokenKind} (is : LexemeClass.punctuation.lookup c = some kind)
    (more : Scans rest ts) : Scans (c :: rest) (.fixed kind :: ts) := by
  have found : firstMatch? (c :: rest) table = _ := firstMatch?_punctuation is
  rw [← terminal_sign (firstMatch?_eq_some found).1 (String.ofList [c]) .origin]
  exact .lexeme found rfl rfl more

theorem word (start : isNameStart c = true) (parts : ∀ d ∈ cs, isNamePart d = true)
    (ends : WordEnds rest) (more : Scans rest ts) :
    Scans (c :: cs ++ rest)
      (Token.terminal ⟨(keyword? (String.ofList (c :: cs))).getD .identifier,
        String.ofList (c :: cs), .origin⟩ :: ts) :=
  .lexeme (firstMatch?_name start parts ends) rfl rfl more

theorem name {x : String} (isName : IsName x) (ends : WordEnds rest) (more : Scans rest ts) :
    Scans (x.toList ++ rest) (.identifier x :: ts) := by
  obtain ⟨c, cs, chars, start, parts, free⟩ := isName
  have whole : String.ofList (c :: cs) = x := by rw [← chars, String.ofList_toList]
  have scans := word start parts ends more
  rw [whole, free] at scans
  rw [chars]
  exact scans

theorem keyword {x : String} {kind : TokenKind} (reserved : keyword? x = some kind)
    (ends : WordEnds rest) (more : Scans rest ts) :
    Scans (x.toList ++ rest) (.fixed kind :: ts) := by
  have words : keywords.all (fun entry => entry.1.toList.head?.any isNameStart &&
      entry.1.toList.tail.all isNamePart &&
        (Token.terminal ⟨entry.2, entry.1, .origin⟩ == .fixed entry.2)) = true := by
    decide
  have mem : (x, kind) ∈ keywords := mem_of_lookup reserved
  have here := List.all_eq_true.1 words _ mem
  cases chars : x.toList with
  | nil => simp [chars] at here
  | cons c cs =>
    simp only [chars, List.head?_cons, Option.any_some, List.tail_cons, Bool.and_eq_true,
      beq_iff_eq] at here
    obtain ⟨⟨start, parts⟩, fixed⟩ := here
    have scans := word start (List.all_eq_true.1 parts) ends more
    rw [← chars, String.ofList_toList, reserved, Option.getD_some, fixed, chars] at scans
    exact scans

theorem number {v : Int} (digits : ∀ d ∈ cs, Integer.isDigit d = true)
    (parsed : Integer.parse? cs = some v) (ends : WordEnds rest) (more : Scans rest ts) :
    Scans (cs ++ rest) (.integer (String.ofList cs) :: ts) := by
  have nonempty : cs ≠ [] := by
    rintro rfl
    cases parsed
  have means : LexemeClass.number.meaning cs = some (.integer, none) := by
    simp [meaning, parsed]
  exact .lexeme (firstMatch?_number nonempty digits ends) means rfl more

end Scans

/-! ## Numbers -/

namespace Integer

theorem parse?_digits {cs : List Char} (nonempty : cs ≠ [])
    (digits : ∀ d ∈ cs, isDigit d = true) : parse? cs = checked (ofDigits cs) := by
  obtain ⟨c, cs, rfl⟩ := List.exists_cons_of_ne_nil nonempty
  have first := digits c List.mem_cons_self
  have formed : parse?.wellFormed (c :: cs) = true := by
    simpa [parse?.wellFormed] using digits
  unfold parse?
  split
  next same =>
    cases same
    exact absurd first (by decide)
  next same =>
    cases same
    exact absurd first (by decide)
  next => exact if_pos formed

/-- A number that is not negative is written in digits, from which it can be read back. -/
theorem parse?_toString {v : Int} (nonneg : 0 ≤ v) (inRange : InRange v) :
    (∀ d ∈ (toString v).toList, isDigit d = true) ∧ parse? (toString v).toList = some v := by
  obtain ⟨n, rfl⟩ := Int.eq_ofNat_of_zero_le nonneg
  have chars : (toString (n : Int)).toList = Nat.toDigits 10 n := by
    change (Nat.repr n).toList = _
    simp
  have digits : ∀ d ∈ Nat.toDigits 10 n, isDigit d = true := by
    intro d mem
    have digit := Nat.isDigit_of_mem_toDigits (by decide) (by decide) mem
    simpa [Char.isDigit, isDigit, Char.le_def] using digit
  have value : ofDigits (Nat.toDigits 10 n) = n := Nat.ofDigitChars_toDigits (by decide) (by decide)
  rw [chars, parse?_digits Nat.toDigits_ne_nil digits, value]
  exact ⟨digits, checked_eq_some_iff.2 ⟨inRange, rfl⟩⟩

/-- A number written in digits is not negative. -/
theorem nonneg_of_parse? {cs : List Char} {v : Int} (digits : ∀ d ∈ cs, isDigit d = true)
    (parsed : parse? cs = some v) : 0 ≤ v := by
  have nonempty : cs ≠ [] := by
    rintro rfl
    cases parsed
  rw [parse?_digits nonempty digits] at parsed
  obtain ⟨-, rfl⟩ := checked_eq_some_iff.1 parsed
  exact Int.natCast_nonneg _

end Integer

/-- What is read as a number is written in digits. -/
theorem LexemeClass.digits_of_integer {cs lexeme : List Char} {cls : LexemeClass}
    {problem : Option Problem} (mem : cls ∈ table) (found : cls.take? cs = some lexeme)
    (means : cls.meaning lexeme = some (.integer, problem)) :
    ∀ d ∈ lexeme, Integer.isDigit d = true := by
  cases cls with
  | name =>
    simp only [meaning, Option.some.injEq, Prod.mk.injEq] at means
    cases reserved : keyword? (String.ofList lexeme) with
    | none =>
      rw [reserved] at means
      cases means.1
    | some kind =>
      have mem := mem_of_lookup reserved
      rw [reserved] at means
      obtain rfl : kind = .integer := means.1
      simp [keywords] at mem
  | number =>
    simp only [take?, run?] at found
    split at found
    · cases found
    · cases found
      exact fun d mem => List.all_eq_true.1 List.all_takeWhile d mem
  | blank => cases means
  | comment => cases means
  | sign text kind =>
    cases means
    simp [table] at mem

namespace Lexer

theorem digits_of_read :
    ∀ (fuel : Nat) {c : Cursor}, (read fuel c).1.token.kind = .integer →
      ∀ d ∈ (read fuel c).1.token.text.toList, Integer.isDigit d = true
  | 0, _, is => by cases is
  | fuel + 1, c, is => by
    revert is
    unfold read
    split
    · exact fun is => by cases is
    · split
      · exact fun is => by cases is
      next found =>
        obtain ⟨mem, fits⟩ := firstMatch?_eq_some found
        split
        · exact digits_of_read fuel
        next kind problem means =>
          intro is d memDigit
          obtain rfl : kind = .integer := is
          refine digits_of_integer mem fits means d ?_
          simpa [Cursor.token] using memDigit

theorem digits_of_readAll :
    ∀ (fuel : Nat) {c : Cursor}, ∀ x ∈ readAll fuel c, x.token.kind = .integer →
      ∀ d ∈ x.token.text.toList, Integer.isDigit d = true
  | 0, _, _, mem => by cases mem
  | fuel + 1, c, x, mem => by
    simp only [readAll] at mem
    split at mem
    · rw [List.mem_singleton.1 mem]
      exact digits_of_read (fuel + 1)
    · rcases List.mem_cons.1 mem with rfl | mem
      · exact digits_of_read (fuel + 1)
      · exact digits_of_readAll fuel x mem

end Lexer

end MiniLang
