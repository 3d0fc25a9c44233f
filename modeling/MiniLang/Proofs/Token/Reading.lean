import MiniLang.Proofs.Text.Place
import MiniLang.Proofs.Token.Deliveries

/-!
# Reading at a place

`Reads` says what the reader of tokens gives for the rest of a text, any text, when it stands
behind a given beginning. It has no cursor and no bound, and one rule for each thing that can stand
next: the end, a piece that separates, and a piece that becomes a token.
Every rest is read in exactly one way, which is what the reader gives (`reads_deliveries`,
`Reads.eq_deliveries`), be it asked for all tokens or for one after the other
(`next_pulled_start`).
-/

set_option autoImplicit false

namespace MiniLang

theorem mem_of_lookup {α β : Type} [BEq α] [LawfulBEq α] {a : α} {b : β} {l : List (α × β)}
    (found : l.lookup a = some b) : (a, b) ∈ l := by
  obtain ⟨before, after, split, -⟩ := List.lookup_eq_some_iff.1 found
  rw [split]
  exact List.mem_append_right _ List.mem_cons_self

namespace LexemeClass

variable {cs rest : List Char}

/-- A lexeme is not empty. -/
theorem ne_nil_of_take? {lexeme : List Char} {cls : LexemeClass} (mem : cls ∈ table)
    (found : cls.take? cs = some lexeme) : lexeme ≠ [] := by
  cases cls with
  | name =>
    cases cs with
    | nil => cases found
    | cons c rest =>
      simp only [take?] at found
      split at found
      · cases found
        exact List.cons_ne_nil _ _
      · cases found
  | number => exact (run?_eq_some found).1
  | blank => exact (run?_eq_some found).1
  | comment opening =>
    obtain ⟨rest, -, rfl⟩ := Option.map_eq_some_iff.1 found
    have opened : opening ≠ [] := by
      rintro rfl
      exact absurd mem (by decide)
    exact fun same => opened (List.append_eq_nil_iff.1 same).1
  | sign text kind =>
    obtain ⟨rest, -, rfl⟩ := Option.map_eq_some_iff.1 found
    rintro rfl
    revert mem
    simp [table]

/-- No lexeme ends the input. -/
theorem meaning_ne_endOfInput {lexeme : List Char} {cls : LexemeClass} {kind : TokenKind}
    {problem : Option Problem} (mem : cls ∈ table)
    (means : cls.meaning lexeme = some (kind, problem)) : kind ≠ .endOfInput := by
  cases cls with
  | name =>
    cases means
    cases reserved : keyword? (String.ofList lexeme) with
    | none => exact fun same => by cases same
    | some kind =>
      have mem : (String.ofList lexeme, kind) ∈ keywords := mem_of_lookup reserved
      rintro rfl
      simp [keywords] at mem
  | number =>
    simp only [meaning] at means
    split at means <;> cases means <;> exact fun same => by cases same
  | blank => cases means
  | comment => cases means
  | sign text kind =>
    cases means
    rintro rfl
    simp [table] at mem

end LexemeClass

open LexemeClass

namespace Cursor

/-- The place between two parts of a text. -/
def between (before rest : List Char) : Cursor where
  rest := rest
  offset := Text.byteLength before
  line := 1 + before.count '\n'
  column := 1 + (Text.lastLine before).length

/-- Counting character by character is counting newlines and what follows the last of them. -/
theorem foldl_positionAfter (text before : List Char) :
    text.foldl positionAfter (1 + before.count '\n', 1 + (Text.lastLine before).length) =
      (1 + (before ++ text).count '\n', 1 + (Text.lastLine (before ++ text)).length) := by
  induction text generalizing before with
  | nil => simp
  | cons c text ih =>
    have step : positionAfter (1 + before.count '\n', 1 + (Text.lastLine before).length) c =
        (1 + (before ++ [c]).count '\n', 1 + (Text.lastLine (before ++ [c])).length) := by
      by_cases newline : c = '\n'
      · subst newline
        rw [Text.lastLine_append_newline]
        simp [positionAfter, Nat.add_assoc]
      · rw [Text.lastLine_append_singleton before newline]
        simp [positionAfter, newline, Nat.add_assoc]
    rw [List.foldl_cons, step, ih (before ++ [c]), List.append_assoc, List.singleton_append]

/-- Moving past a text leaves the place behind it. -/
theorem advance_between (before text rest : List Char) :
    (between before (text ++ rest)).advance text = between (before ++ text) rest := by
  simp only [advance, between, Text.dropBytes_append, foldl_positionAfter, Text.byteLength_append]

end Cursor

namespace LexemeClass

variable {cs lexeme : List Char} {cls : LexemeClass}

/-- A lexeme stands at the beginning of the text. -/
theorem prefix_of_take? (found : cls.take? cs = some lexeme) : lexeme <+: cs := by
  cases cls with
  | name =>
    cases cs with
    | nil => cases found
    | cons c rest =>
      simp only [take?] at found
      split at found
      · cases found
        exact (List.prefix_cons_inj c).2 (List.takeWhile_prefix _)
      · cases found
  | number => exact ⟨_, (run?_eq_some found).2⟩
  | blank => exact ⟨_, (run?_eq_some found).2⟩
  | comment opening =>
    obtain ⟨rest, cut, rfl⟩ := Option.map_eq_some_iff.1 found
    rw [← List.isPrefixOf?_eq_some_iff_append_eq.1 cut]
    exact (List.prefix_append_right_inj opening).2 (List.takeWhile_prefix _)
  | sign text kind =>
    obtain ⟨rest, cut, rfl⟩ := Option.map_eq_some_iff.1 found
    exact ⟨rest, List.isPrefixOf?_eq_some_iff_append_eq.1 cut⟩

end LexemeClass

/-- The first piece of a text, and what it becomes: nothing if it separates others, else a kind of
token and perhaps a problem. -/
def firstPiece? (cs : List Char) : Option (List Char × Option (TokenKind × Option Problem)) :=
  match cs with
  | [] => none
  | c :: _ =>
    match firstMatch? cs table with
    | none => some ([c], some (.unknown, some (.illegalCharacter c)))
    | some (cls, lexeme) => some (lexeme, cls.meaning lexeme)

section FirstPiece

variable {cs text : List Char} {becomes : Option (TokenKind × Option Problem)}

/-- A piece is a lexeme, or a character that begins none. -/
theorem firstPiece?_eq_some (found : firstPiece? cs = some (text, becomes)) :
    (∃ cls, firstMatch? cs table = some (cls, text) ∧ becomes = cls.meaning text) ∨
      ∃ c rest, text = [c] ∧ cs = c :: rest ∧ firstMatch? cs table = none ∧
        becomes = some (.unknown, some (.illegalCharacter c)) := by
  unfold firstPiece? at found
  split at found
  · cases found
  next c rest =>
    split at found
    next none =>
      cases found
      exact .inr ⟨c, rest, rfl, rfl, none, rfl⟩
    next cls lexeme first =>
      cases found
      exact .inl ⟨cls, first, rfl⟩

/-- A lexeme is a piece. -/
theorem firstPiece?_of_firstMatch? {cls : LexemeClass}
    (found : firstMatch? cs table = some (cls, text)) :
    firstPiece? cs = some (text, cls.meaning text) := by
  cases cs with
  | nil =>
    obtain ⟨mem, fits⟩ := firstMatch?_eq_some found
    exact absurd (List.prefix_nil.1 (prefix_of_take? fits)) (ne_nil_of_take? mem fits)
  | cons c rest => simp only [firstPiece?, found]

/-- A piece is not empty and stands at the beginning of the text. -/
theorem cut_of_firstPiece? (found : firstPiece? cs = some (text, becomes)) :
    text ≠ [] ∧ text <+: cs := by
  rcases firstPiece?_eq_some found with ⟨cls, first, -⟩ | ⟨c, rest, rfl, rfl, -⟩
  · obtain ⟨mem, fits⟩ := firstMatch?_eq_some first
    exact ⟨ne_nil_of_take? mem fits, prefix_of_take? fits⟩
  · exact ⟨List.cons_ne_nil c [], rest, rfl⟩

/-- No piece of a text ends the input. -/
theorem ne_endOfInput_of_firstPiece? {kind : TokenKind} {problem : Option Problem}
    (found : firstPiece? cs = some (text, some (kind, problem))) : kind ≠ .endOfInput := by
  rcases firstPiece?_eq_some found with ⟨cls, first, means⟩ | ⟨c, -, -, -, -, means⟩
  · exact meaning_ne_endOfInput (firstMatch?_eq_some first).1 means.symm
  · cases means
    exact TokenKind.noConfusion

end FirstPiece

/-- What the reader gives for `rest`, which stands behind `before`. -/
inductive Reads : List Char → List Char → List Delivery → Prop
  | ending {before : List Char} : Reads before [] [{ token := .endAt (.over before []) }]
  | separator {before text rest : List Char} {ds : List Delivery}
      (found : firstPiece? (text ++ rest) = some (text, none))
      (more : Reads (before ++ text) rest ds) : Reads before (text ++ rest) ds
  | token {before text rest : List Char} {kind : TokenKind} {problem : Option Problem}
      {ds : List Delivery}
      (found : firstPiece? (text ++ rest) = some (text, some (kind, problem)))
      (more : Reads (before ++ text) rest ds) :
      Reads before (text ++ rest)
        ({ token := ⟨kind, String.ofList text, .over before text⟩, problem := problem } :: ds)

/-- Every text can be read, wherever it stands. -/
theorem exists_reads (before rest : List Char) : ∃ ds, Reads before rest ds := by
  induction len : rest.length using Nat.strong_induction_on generalizing before rest with
  | _ n ih =>
    cases found : firstPiece? rest with
    | none =>
      obtain rfl : rest = [] := by
        unfold firstPiece? at found
        split at found
        · rfl
        · split at found <;> cases found
      exact ⟨_, .ending⟩
    | some first =>
      obtain ⟨text, becomes⟩ := first
      obtain ⟨nonempty, after, rfl⟩ := cut_of_firstPiece? found
      have positive : 0 < text.length := List.length_pos_iff.2 nonempty
      have less : after.length < n := by
        rw [← len, List.length_append]
        omega
      obtain ⟨ds, more⟩ := ih after.length less (before ++ text) after rfl
      cases becomes with
      | none => exact ⟨ds, .separator found more⟩
      | some meaning => exact ⟨_, .token found more⟩

/-! ## The reader of tokens -/

namespace Lexer

/-- The reader gives the first of the deliveries, and what is left reads as the others. -/
def GivesFirst (ds : List Delivery) (size : Nat) (read : Delivery × Cursor) : Prop :=
  match ds with
  | [] => False
  | d :: ds =>
    ∃ after, read = (d, after) ∧
      (d.token.kind = .endOfInput ∧ ds = [] ∨
        d.token.kind ≠ .endOfInput ∧ ∃ before rest, after = .between before rest ∧
          rest.length < size ∧ Reads before rest ds)

theorem GivesFirst.mono {ds : List Delivery} {size size' : Nat} {read : Delivery × Cursor}
    (h : GivesFirst ds size read) (le : size ≤ size') : GivesFirst ds size' read := by
  cases ds with
  | nil => exact h
  | cons d ds =>
    obtain ⟨after, given, last | ⟨more, before, rest, left, less, reads⟩⟩ := h
    · exact ⟨after, given, .inl last⟩
    · exact ⟨after, given, .inr ⟨more, before, rest, left, less.trans_le le, reads⟩⟩

/-- The reader works piece by piece. -/
theorem read_succ (fuel : Nat) (c : Cursor) : read (fuel + 1) c =
    match firstPiece? c.rest with
    | none => ({ token := .endAt (c.spanOf []) }, c)
    | some (text, none) => read fuel (c.advance text)
    | some (text, some (kind, problem)) =>
      ({ token := c.token kind text, problem := problem }, c.advance text) := by
  rw [read]
  unfold firstPiece?
  cases same : c.rest with
  | nil => rfl
  | cons first rest =>
    cases firstMatch? (first :: rest) table with
    | none => rfl
    | some piece =>
      obtain ⟨cls, lexeme⟩ := piece
      cases means : cls.meaning lexeme <;> simp only [means]

theorem read_of_reads {before rest : List Char} {ds : List Delivery} (h : Reads before rest ds) :
    ∀ fuel, rest.length < fuel → GivesFirst ds rest.length (read fuel (.between before rest)) := by
  induction h with
  | ending =>
    intro fuel less
    obtain ⟨n, rfl⟩ : ∃ n, fuel = n + 1 := Nat.exists_eq_succ_of_ne_zero (by omega)
    exact ⟨_, rfl, .inl ⟨rfl, rfl⟩⟩
  | @separator before text rest ds found more ih =>
    intro fuel less
    obtain ⟨n, rfl⟩ : ∃ n, fuel = n + 1 := Nat.exists_eq_succ_of_ne_zero (by omega)
    have positive : 0 < text.length := List.length_pos_iff.2 (cut_of_firstPiece? found).1
    have fewer : rest.length < (text ++ rest).length := by
      rw [List.length_append]
      omega
    have step : read (n + 1) (.between before (text ++ rest)) =
        read n (.between (before ++ text) rest) := by
      rw [read_succ, ← Cursor.advance_between]
      simp only [Cursor.between, found]
    rw [step]
    exact (ih n (by omega)).mono fewer.le
  | @token before text rest kind problem ds found more ih =>
    intro fuel less
    obtain ⟨n, rfl⟩ : ∃ n, fuel = n + 1 := Nat.exists_eq_succ_of_ne_zero (by omega)
    have positive : 0 < text.length := List.length_pos_iff.2 (cut_of_firstPiece? found).1
    have fewer : rest.length < (text ++ rest).length := by
      rw [List.length_append]
      omega
    have step : read (n + 1) (.between before (text ++ rest)) =
        ({ token := ⟨kind, String.ofList text, .over before text⟩, problem := problem },
          .between (before ++ text) rest) := by
      rw [read_succ, ← Cursor.advance_between]
      simp only [Cursor.between, found]
      rfl
    rw [step]
    exact ⟨_, rfl, .inr ⟨ne_endOfInput_of_firstPiece? found, _, rest, rfl, fewer, more⟩⟩

theorem readAll_of_reads :
    ∀ (fuel : Nat) {before rest : List Char} {ds : List Delivery}, Reads before rest ds →
      rest.length < fuel → readAll fuel (.between before rest) = ds
  | 0, _, _, _, _, less => absurd less (Nat.not_lt_zero _)
  | fuel + 1, before, rest, ds, h, less => by
    have first := read_of_reads h (fuel + 1) less
    cases ds with
    | nil => exact first.elim
    | cons d ds =>
      obtain ⟨after, given, ⟨last, rfl⟩ | ⟨more, _, _, rfl, fewer, reads⟩⟩ := first
      · simp only [readAll, given, last, if_true]
      · simp only [readAll, given, more, if_false, readAll_of_reads fuel reads (by omega)]

/-- The reader after it was asked for a token so many times. -/
def pulled (l : Lexer) (times : Nat) : Lexer := (fun l => l.next.2)^[times] l

/-- A reader that is done gives nothing more. -/
theorem next_pulled_of_finished {l : Lexer} (done : l.finished = true) (times : Nat) :
    (l.pulled times).next.1 = none := by
  have stays : (fun l : Lexer => l.next.2)^[times] l = l :=
    Function.iterate_fixed (by simp [next, done]) times
  rw [pulled, stays, next, if_pos done]

/-- What the reader gives when it is asked for one token after the other. -/
theorem next_pulled_of_reads {before rest : List Char} {ds : List Delivery}
    (h : Reads before rest ds) (times : Nat) :
    (pulled { cursor := .between before rest } times).next.1 = ds[times]? := by
  induction times generalizing before rest ds with
  | zero =>
    have first := read_of_reads h (rest.length + 1) (Nat.lt_succ_self _)
    cases ds with
    | nil => exact first.elim
    | cons d ds =>
      obtain ⟨after, given, -⟩ := first
      exact congrArg (fun read : Delivery × Cursor => some read.1) given
  | succ times ih =>
    have first := read_of_reads h (rest.length + 1) (Nat.lt_succ_self _)
    cases ds with
    | nil => exact first.elim
    | cons d ds =>
      obtain ⟨after, given, going⟩ := first
      have step : pulled { cursor := .between before rest } (times + 1) =
          pulled ⟨after, d.token.kind == .endOfInput⟩ times :=
        congrArg (fun read : Delivery × Cursor =>
          pulled ⟨read.2, read.1.token.kind == .endOfInput⟩ times) given
      rw [step, List.getElem?_cons_succ]
      obtain ⟨last, rfl⟩ | ⟨more, _, _, rfl, -, reads⟩ := going
      · rw [next_pulled_of_finished (by simp [last])]
        rfl
      · rw [beq_eq_false_iff_ne.2 more]
        exact ih reads

end Lexer

/-- The tokens of a text are what the reader gives for it. -/
theorem reads_deliveries (source : List Char) : Reads [] source (deliveries source) := by
  obtain ⟨ds, reads⟩ := exists_reads [] source
  have all : deliveries source = ds := Lexer.readAll_of_reads _ reads (Nat.lt_succ_self _)
  rw [all]
  exact reads

/-- A text is read in one way. -/
theorem Reads.eq_deliveries {source : List Char} {ds : List Delivery} (h : Reads [] source ds) :
    ds = deliveries source :=
  (Lexer.readAll_of_reads _ h (Nat.lt_succ_self _)).symm

/-- Asked for one token after the other, the reader gives the tokens of the text, each once and in
their order, and nothing after that. -/
theorem next_pulled_start (source : List Char) (times : Nat) :
    ((Lexer.start source).pulled times).next.1 = (deliveries source)[times]? :=
  Lexer.next_pulled_of_reads (reads_deliveries source) times

end MiniLang
