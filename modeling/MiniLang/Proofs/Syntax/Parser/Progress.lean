import MiniLang.Proofs.Syntax.Parser.Position
import MiniLang.Proofs.Syntax.Parser.Termination

/-!
# Parsers move on

Whatever stands there, a statement takes the current token (`took_current_statementOrErrorFrom`): if
it cannot be read, recovery takes at least that. So a program is read in as many rounds as it has
statements, each of which takes a run of tokens that is not empty, and these runs are all tokens
before the end of the input, one after the other (`Parse.Rounds`, `parse_rounds`). It ends by itself
(`Parse.Unlimited`), on any tokens.
-/

set_option autoImplicit false

namespace MiniLang

namespace Parse

open MiniLang.Parser

variable {g : Grammar} {p q r : Parser}

/-- A statement, or an error placeholder in its place, takes the current token and perhaps more, as
long as there is one. -/
theorem took_current_statementOrErrorFrom (known : g = .standard ∨ g = .empty)
    (more : p.atEnd = false) {fuel : Nat} (enough : p.pending.length < fuel) :
    ∃ run, p.TookRun (p.current :: run) (statementOrErrorFrom g fuel p).2 := by
  obtain ⟨run, took⟩ :=
    kept_statementOrErrorFrom (g := g) (kept_tookRun p) ⟨[], .refl p⟩ fuel
  have nonempty : p.ahead ≠ [] := fun nothing => by
    rw [atEnd_of_ahead_eq_nil nothing] at more
    cases more
  have fewer : (statementOrErrorFrom g fuel p).2.ahead.length < p.ahead.length := by
    rcases known with rfl | rfl
    · have sound := soundStmt_statementOrErrorFrom anything fuel p (accepts_any p) nonempty
        (p.length_ahead.trans_lt enough)
      exact sound.2.1
    · -- without forms every statement fails where it begins
      cases fuel with
      | zero => exact length_ahead_advance_lt more
      | succ fuel => exact (recover_takes (onward_report p _) nonempty).2
  rw [length_ahead, length_ahead] at fewer
  obtain ⟨rest, rfl⟩ := took.eq_cons fewer
  exact ⟨rest, took⟩

theorem took_current_statementOrError (known : g = .standard ∨ g = .empty)
    (more : p.atEnd = false) : ∃ run, p.TookRun (p.current :: run) (statementOrError g p).2 :=
  took_current_statementOrErrorFrom known more
    (Nat.lt_succ_of_le (p.length_ahead ▸ p.length_ahead_le))

/-- A program is read in rounds, one for each statement. Each of them takes a run of tokens, the
current one at least, and the last of them gets to the end of the input. -/
inductive Rounds : Parser → List Stmt → List (List Token) → Parser → Prop
  | ending {p : Parser} (atEnd : p.atEnd = true) : Rounds p [] [] p
  | round {p q r : Parser} {s : Stmt} {ss : List Stmt} {t : Token} {run : List Token}
      {runs : List (List Token)} (more : p.atEnd = false)
      (read : statementOrError .standard p = (s, q)) (took : p.TookRun (t :: run) q)
      (rest : Rounds q ss runs r) : Rounds p (s :: ss) ((t :: run) :: runs) r

/-- All rounds together take all tokens before the end of the input. -/
theorem Rounds.tookRun {ss : List Stmt} {runs : List (List Token)} (h : Rounds p ss runs q) :
    p.TookRun runs.flatten q ∧ q.atEnd = true := by
  induction h with
  | ending atEnd => exact ⟨.refl _, atEnd⟩
  | round _ _ took _ ih => exact ⟨took.trans ih.1, ih.2⟩

/-- Nobody cancels a parser, and none of its tokens does. -/
structure Undisturbed (p : Parser) : Prop where
  uncancelled : p.session.Uncancelled
  upcoming : ∀ d ∈ p.upcoming, d.cancels = false

theorem kept_undisturbed : Kept Undisturbed where
  advance := by
    intro p h
    unfold Parser.advance
    split
    · exact h
    · split
      next nothing => exact ⟨h.uncancelled, h.upcoming⟩
      next d rest upcoming =>
        have quiet := h.upcoming d (upcoming ▸ List.mem_cons_self)
        refine ⟨?_, fun e mem => h.upcoming e (upcoming ▸ List.mem_cons_of_mem d mem)⟩
        simp only [Delivery.notify, quiet]
        exact h.uncancelled.recordAll _
  setNextId := fun h _ => ⟨h.uncancelled, h.upcoming⟩
  setBlockDepth := fun h _ => ⟨h.uncancelled, h.upcoming⟩
  setReportedEnd := fun h => ⟨h.uncancelled, h.upcoming⟩
  report := fun h problem span => ⟨h.uncancelled.report problem span, h.upcoming⟩

theorem undisturbed_start {tokens : List Delivery} {s : Session}
    (quiet : ∀ d ∈ tokens, d.cancels = false) (uncancelled : s.Uncancelled) :
    Undisturbed (Parser.start tokens s) := by
  cases tokens with
  | nil => exact ⟨uncancelled, List.forall_mem_nil _⟩
  | cons d rest =>
    obtain ⟨first, others⟩ := List.forall_mem_cons.1 quiet
    refine ⟨?_, others⟩
    simp only [Parser.start, Delivery.notify, first]
    exact uncancelled.recordAll _

/-- A program is read in rounds as long as nobody cancels it. -/
theorem rounds_topLevel :
    ∀ (fuel : Nat) {p : Parser}, Undisturbed p → p.pending.length < fuel →
      ∃ runs, Rounds p (topLevel .standard fuel p).1 runs (topLevel .standard fuel p).2
  | 0, _, _, less => absurd less (Nat.not_lt_zero _)
  | fuel + 1, p, undisturbed, less => by
    rw [topLevel, undisturbed.uncancelled.checkpoint]
    simp only [↓reduceIte]
    split
    next atEnd => exact ⟨[], .ending atEnd⟩
    next more =>
      have more : p.atEnd = false := Bool.eq_false_of_not_eq_true more
      obtain ⟨run, took⟩ := took_current_statementOrError (.inl rfl) more
      have fewer := congrArg List.length took.pending
      rw [List.cons_append, List.length_cons, List.length_append] at fewer
      have calm : Undisturbed (statementOrError .standard p).2 :=
        kept_statementOrErrorFrom kept_undisturbed undisturbed _
      obtain ⟨runs, rest⟩ := rounds_topLevel fuel calm (by omega)
      exact ⟨_, .round more rfl took rest⟩

/-- A round of a program that nobody cancels. -/
theorem topLevel_succ (fuel : Nat) (more : p.atEnd = false) (uncancelled : p.session.Uncancelled) :
    topLevel .standard (fuel + 1) p =
      ((statementOrError .standard p).1 ::
          (topLevel .standard fuel (statementOrError .standard p).2).1,
        (topLevel .standard fuel (statementOrError .standard p).2).2) := by
  rw [topLevel, uncancelled.checkpoint, more]
  rfl

theorem topLevel_of_atEnd (fuel : Nat) (atEnd : p.atEnd = true) :
    topLevel .standard fuel p = ([], p) := by
  cases fuel with
  | zero => rfl
  | succ fuel => rw [topLevel, if_pos atEnd]

end Parse

/-- A parse of a list of tokens from its beginning to its end. -/
structure Parsed.Exhausts (result : Parsed) (tokens : List Delivery) (s : Session) : Prop where
  /-- The statements of the program were read one after the other, each from a run of tokens of its
  own. The runs are the tokens before the end of the input, in order, and the parser has counted
  them. -/
  rounds : ∃ runs stop, Parse.Rounds (Parser.start tokens s) result.program.body runs stop ∧
    runs.flatten = (tokens.map Delivery.token).takeWhile (·.kind ≠ .endOfInput) ∧
    stop.consumed = ((tokens.map Delivery.token).takeWhile (·.kind ≠ .endOfInput)).length ∧
    result.session = stop.session
  /-- Before the end of the input, every statement takes the current token at least. -/
  progress : ∀ p : Parser, p.atEnd = false →
    ∃ run, p.TookRun (p.current :: run) (Parse.statementOrError .standard p).2
  /-- Nothing but the tokens ends it. -/
  unlimited : ∀ p : Parser, Parse.Unlimited p

/-- Every list of tokens is parsed up to the end of the input, unless the parse is cancelled. -/
theorem parse_exhausts (tokens : List Delivery) (s : Session)
    (quiet : ∀ d ∈ tokens, d.cancels = false) (uncancelled : s.Uncancelled) :
    (parse tokens s).Exhausts tokens s where
  rounds := by
    have enough : (Parser.start tokens s).pending.length < (Parser.start tokens s).remaining + 1 :=
      Nat.lt_succ_of_le (Parser.length_ahead _ ▸ Parser.length_ahead_le _)
    obtain ⟨runs, rounds⟩ :=
      Parse.rounds_topLevel _ (Parse.undisturbed_start quiet uncancelled) enough
    obtain ⟨took, atEnd⟩ := rounds.tookRun
    have begins : (Parser.start tokens s).pending =
        (tokens.map Delivery.token).takeWhile (·.kind ≠ .endOfInput) ∧
        (Parser.start tokens s).consumed = 0 := by
      cases tokens with
      | nil => exact ⟨rfl, rfl⟩
      | cons d rest => exact ⟨rfl, rfl⟩
    have whole := took.pending
    rw [Parser.pending_of_atEnd atEnd, List.append_nil, begins.1] at whole
    refine ⟨runs, _, rounds, whole.symm, ?_, rfl⟩
    rw [took.consumed, begins.2, Nat.zero_add, whole]
  progress := fun p more => Parse.took_current_statementOrError (.inl rfl) more
  unlimited := Parse.unlimited

/-- Closing braces with nothing to close, a number that has no value, and more behind the end. -/
def strayTokens : List Delivery :=
  deliveriesOf [⟨.closeCurly, "", .origin⟩, ⟨.closeCurly, "", .origin⟩, ⟨.integer, "x", .origin⟩,
    ⟨.endOfInput, "", .origin⟩, ⟨.semicolon, "", .origin⟩]

theorem parse_exhausts_strayTokens :
    (parse strayTokens .fresh).Exhausts strayTokens .fresh ∧
      (parse strayTokens .fresh).program.body.length = 3 :=
  ⟨parse_exhausts strayTokens .fresh (by decide +kernel) ⟨rfl, rfl⟩, by decide +kernel⟩

end MiniLang
