import MiniLang.Proofs.Compilation.Cancellation
import MiniLang.Proofs.Token.Lossless
import MiniLang.Compilation

/-!
# Compilations that are cancelled before they start

A compilation is asked to stop at the statements of its top level. If one is cancelled before it
starts, the question before the first statement is the first one (`topLevel_of_requested`), and so
it ends there: with what was found when the first token was read, and then one diagnostic about the
cancellation. A text of blanks and comments has no statement to ask at, so nobody notices, and it
is compiled to the program that does nothing (`compile_cancelledBefore`).
-/

set_option autoImplicit false

namespace MiniLang

open MiniLang.Parser

/-! ## Texts without tokens -/

/-- A text whose only token ends the input is blanks and comments. -/
theorem Reads.separates {before rest : List Char} {d : Delivery} (h : Reads before rest [d])
    (last : d.token.kind = .endOfInput) : Separates rest [] := by
  generalize same : [d] = ds at h
  induction h with
  | ending => exact .nil
  | @separator before text rest ds found more ih =>
    have gap := separates_of_firstPiece? found
    rw [← List.append_nil rest] at gap
    exact gap.append (ih same)
  | token found more =>
    cases same
    exact absurd last (ne_endOfInput_of_firstPiece? found)

/-! ## The first question -/

section

variable {g : Grammar} {p : Parser} {s : Session} {d : Delivery} {rest : List Delivery}

/-- A request that nobody has noticed is noticed before the first statement. -/
theorem topLevel_of_requested (requested : p.session.cancelAfter = some 0)
    (unseen : p.session.cancelled = false) (going : p.atEnd = false) (fuel : Nat) :
    Parse.topLevel g (fuel + 1) p =
      ([], { p with session := { p.session.report .cancelled p.current.span with
        cancelled := true } }) := by
  have stops : p.session.checkpoint p.current.span =
      (false, { p.session.report .cancelled p.current.span with cancelled := true }) := by
    simp only [Session.checkpoint, unseen, requested, Bool.false_eq_true, if_false]
  simp only [Parse.topLevel, going, stops, Bool.false_eq_true, if_false]

/-- Without a token there is no statement. -/
theorem topLevel_of_atEnd (ended : p.atEnd = true) (fuel : Nat) :
    Parse.topLevel g (fuel + 1) p = ([], p) := by
  simp only [Parse.topLevel, ended, if_true]

end

/-! ## From the text to the code -/

/-- A compilation ended before the first statement, at its first token: there is what was found when
the token was read, and then one diagnostic about the cancellation. -/
structure Compilation.StoppedAt (first : Delivery) (c : Compilation) : Prop where
  noCode : c.code = none
  noStatement : c.program.body = []
  found : c.diagnostics = first.diagnostics ++ [.of .cancelled first.token.span]
  once : c.diagnostics.countP (·.problem == .cancelled) = 1
  errors : c.hasErrors = true

/-- The program without statements. -/
def Ir.Program.idle : Ir.Program := ⟨[⟨entryName, [], [.ret none], 0⟩]⟩

/-- A compilation found nothing to compile, and nothing wrong. -/
structure Compilation.Idle (c : Compilation) : Prop where
  code : c.code = some .idle
  noStatement : c.program.body = []
  nothing : c.diagnostics = []

section

variable {unit : SourceUnit} {first : Delivery} {rest : List Delivery}

/-- Words of a text bring no diagnostics about a cancellation along. -/
theorem Delivery.Lexed.countP_cancelled (h : first.Lexed) :
    first.diagnostics.countP (·.problem == .cancelled) = 0 := by
  refine List.countP_eq_zero.2 fun d mem same => ?_
  have lexical := (h.diagnostics_lexical mem).1
  rw [beq_iff_eq.1 same] at lexical
  cases lexical

/-- A parser looks at the first of the words of a text. -/
theorem start_of_word (delivered : deliveries unit.text.toList = first :: rest) (s : Session) :
    Parser.start (deliveries unit.text.toList) s =
      { upcoming := rest, current := first.token, session := s.recordAll first.diagnostics } := by
  have lexed : first.Lexed := lexed_deliveries _ first (delivered ▸ List.mem_cons_self)
  rw [delivered, Parser.start, lexed.notify]

/-- The parse of a text with a word stops before the word. -/
theorem parseSource_of_word (delivered : deliveries unit.text.toList = first :: rest)
    (word : first.token.kind ≠ .endOfInput) :
    let parsed := parseSource unit.text.toList (.ofUnit true)
    parsed.program.body = [] ∧ parsed.session.cancelled = true ∧ parsed.session.diagnostics =
      first.diagnostics ++ [.of .cancelled first.token.span] := by
  have begins := start_of_word delivered (.ofUnit true)
  simp only [parseSource, parse]
  generalize Parser.start (deliveries unit.text.toList) (.ofUnit true) = p at *
  have going : p.atEnd = false := by
    rw [begins]
    exact beq_false_of_ne word
  rw [topLevel_of_requested (by rw [begins]; rfl) (by rw [begins]; rfl) going, begins]
  exact ⟨rfl, rfl, rfl⟩

/-- A text without words is parsed without anybody being asked whether to go on. -/
theorem parseSource_of_noWord (delivered : deliveries unit.text.toList = [first])
    (ending : first.token.kind = .endOfInput) (cancelled : Bool) :
    let parsed := parseSource unit.text.toList (.ofUnit cancelled)
    parsed.program = ⟨first.token.span.join first.token.span, []⟩ ∧ parsed.valid = true ∧
      parsed.session = .ofUnit cancelled := by
  have lexed : first.Lexed := lexed_deliveries _ first (delivered ▸ List.mem_cons_self)
  have nothing : first.diagnostics = [] := by
    rw [Delivery.diagnostics, lexed.problem_eq_none (by rw [ending]; exact TokenKind.noConfusion)]
    rfl
  have begins := start_of_word delivered (.ofUnit cancelled)
  rw [nothing] at begins
  simp only [parseSource, parse]
  generalize Parser.start (deliveries unit.text.toList) (.ofUnit cancelled) = p at *
  have ended : p.atEnd = true := by
    rw [begins]
    exact beq_iff_eq.2 ending
  rw [topLevel_of_atEnd ended, begins]
  cases cancelled <;> exact ⟨rfl, rfl, rfl⟩

/-- The stages behind the parse of a text without words ask nobody either. -/
theorem compileProgram_of_noStatement (options : CompileOptions) (span : Span) (cancelled : Bool) :
    compileProgram options ⟨span, []⟩ (.ofUnit cancelled) =
      .ok (some .idle, .ofUnit cancelled) := by
  cases cancelled <;> rfl

end

/-- A text has a first word or none. -/
theorem deliveries_cases (source : List Char) :
    (∃ first rest, deliveries source = first :: rest ∧ first.token.kind ≠ .endOfInput) ∨
      ∃ last, deliveries source = [last] ∧ last.token.kind = .endOfInput := by
  obtain ⟨front, tokens, words⟩ := (reads_deliveries source).ending_last
  cases front with
  | nil =>
    obtain ⟨last, only, token⟩ := List.map_eq_singleton_iff.1 tokens
    exact .inr ⟨last, only, by rw [token]; rfl⟩
  | cons word front =>
    obtain ⟨first, rest, all, rfl, -⟩ := List.map_eq_cons_iff.1 tokens
    exact .inl ⟨first, rest, all, words _ List.mem_cons_self⟩

/-- A compilation that is cancelled before it starts ends at the first word of its text, with one
diagnostic about the cancellation and without code. If the text has no words, but only blanks and
comments, then it is compiled as if it were not cancelled, and nothing is found. -/
theorem compile_cancelledBefore (unit : SourceUnit) (options : CompileOptions) :
    ∃ c, compile unit options true = .ok c ∧
      ((∃ first rest, deliveries unit.text.toList = first :: rest ∧
          first.token.kind ≠ .endOfInput ∧ c.StoppedAt first) ∨
        ((∀ d ∈ deliveries unit.text.toList, d.token.kind = .endOfInput) ∧
          Separates unit.text.toList [] ∧ c.Idle ∧ compile unit options false = .ok c)) := by
  rcases deliveries_cases unit.text.toList with
    ⟨first, rest, delivered, word⟩ | ⟨last, delivered, ending⟩
  · obtain ⟨body, noticed, found⟩ := parseSource_of_word delivered word
    have lexed : first.Lexed := lexed_deliveries _ first (delivered ▸ List.mem_cons_self)
    have stopped : compile unit options true =
        .ok ⟨unit.name, (parseSource unit.text.toList (.ofUnit true)).program, none,
          first.diagnostics ++ [.of .cancelled first.token.span]⟩ := by
      simp [compile, compileIn, noticed, found]
    refine ⟨_, stopped, .inl ⟨first, rest, delivered, word, ?_⟩⟩
    exact {
      noCode := rfl
      noStatement := body
      found := rfl
      once := by
        rw [List.countP_append, lexed.countP_cancelled]
        rfl
      errors := by
        rw [Compilation.hasErrors, Diagnostics.hasErrors_append]
        exact Bool.or_true _ }
  · have idle (cancelled : Bool) : compile unit options cancelled =
        .ok ⟨unit.name, ⟨last.token.span.join last.token.span, []⟩, some .idle, []⟩ := by
      obtain ⟨program, valid, session⟩ := parseSource_of_noWord delivered ending cancelled
      have going : (Session.ofUnit cancelled).cancelled = false := by cases cancelled <;> rfl
      have nothing : (Session.ofUnit cancelled).diagnostics = [] := by cases cancelled <;> rfl
      simp [compile, compileIn, program, valid, session, going, nothing,
        compileProgram_of_noStatement]
    have reads := reads_deliveries unit.text.toList
    rw [delivered] at reads
    refine ⟨_, idle true, .inr ⟨?_, reads.separates ending, ⟨rfl, rfl, rfl⟩, idle false⟩⟩
    rw [delivered]
    exact fun d mem => List.mem_singleton.1 mem ▸ ending

/-- Nobody notices that the compilation of the empty text is cancelled. -/
theorem compile_cancelledBefore_emptyText :
    ∃ c, compile ⟨"main.lang", ""⟩ {} true = .ok c ∧ c.code = some .idle ∧ c.diagnostics = [] ∧
      ¬ (c.code = none ∧ c.diagnostics.countP (·.problem == .cancelled) = 1 ∧
        c.hasErrors = true) := by
  refine ⟨⟨"main.lang", ⟨.origin, []⟩, some .idle, []⟩, by rfl, rfl, rfl, ?_⟩
  rintro ⟨none, -⟩
  cases none

end MiniLang
