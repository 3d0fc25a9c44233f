import MiniLang.Proofs.Syntax.Parser.Ahead
import MiniLang.Proofs.Syntax.Parser.Likeness.Programs

/-!
# Where a parser stands

What happens to the tokens that are pending: whatever an action does, whether it succeeds or fails,
it has taken a run of tokens from the front and counted them (`Parser.TookRun`). What the single
steps of a parser keep is kept by all that it does, as the comparison of a parser with itself shows
(`Parser.Kept`, `Comparison.keeping`).
-/

set_option autoImplicit false

namespace MiniLang

namespace Parser

/-- From one parser to another just the tokens of a run were taken. -/
structure TookRun (p : Parser) (run : List Token) (q : Parser) : Prop where
  pending : p.pending = run ++ q.pending
  consumed : q.consumed = p.consumed + run.length
  upcoming : q.upcoming = p.upcoming.drop run.length

variable {p q r : Parser} {run run' : List Token}

@[simp] theorem pending_report (p : Parser) (e : SyntaxError) :
    (p.report e).pending = p.pending := by
  unfold report
  split <;> rfl

namespace TookRun

theorem refl (p : Parser) : p.TookRun [] p := ⟨rfl, rfl, rfl⟩

theorem trans (h : p.TookRun run q) (h' : q.TookRun run' r) : p.TookRun (run ++ run') r := by
  refine ⟨?_, ?_, ?_⟩
  · rw [h.pending, h'.pending, List.append_assoc]
  · rw [h'.consumed, h.consumed, List.length_append, Nat.add_assoc]
  · rw [h'.upcoming, h.upcoming, List.drop_drop, List.length_append]

/-- Taking the current token. -/
theorem advance (more : p.atEnd = false) : p.TookRun [p.current] p.advance := by
  refine ⟨pending_of_not_atEnd more, ?_, ?_⟩
  all_goals cases rest : p.upcoming <;> simp [Parser.advance, more, rest]

theorem exists_advance (p : Parser) : ∃ run, p.TookRun run p.advance := by
  cases atEnd : p.atEnd with
  | true =>
    have same : p.advance = p := by simp [Parser.advance, atEnd]
    exact ⟨[], same.symm ▸ refl p⟩
  | false => exact ⟨_, advance atEnd⟩

/-- Reporting something takes no token. -/
theorem report (h : p.TookRun run q) (e : SyntaxError) : p.TookRun run (q.report e) := by
  unfold Parser.report
  split <;> exact ⟨h.pending, h.consumed, h.upcoming⟩

/-- If fewer tokens are left, then the current one was taken. -/
theorem eq_cons (h : p.TookRun run q) (fewer : q.pending.length < p.pending.length) :
    ∃ more, run = p.current :: more := by
  have cut := h.pending
  cases run with
  | nil =>
    rw [cut, List.nil_append] at fewer
    exact absurd fewer (lt_irrefl _)
  | cons t more =>
    obtain ⟨-, rfl, -⟩ := of_pending_eq_cons (cut.trans List.cons_append)
    exact ⟨more, rfl⟩

/-- What was taken and what is left are all that was pending. -/
theorem length (h : p.TookRun run q) :
    q.consumed + q.pending.length = p.consumed + p.pending.length := by
  rw [h.consumed, h.pending, List.length_append, Nat.add_assoc]

end TookRun

end Parser

/-- No step of a parser changes something: neither taking a token nor counting, marking and
reporting. -/
structure Parser.Kept (I : Parser → Prop) : Prop where
  advance {p : Parser} (h : I p) : I p.advance
  setNextId {p : Parser} (h : I p) (n : NodeId) : I { p with nextId := n }
  setBlockDepth {p : Parser} (h : I p) (n : Nat) : I { p with blockDepth := n }
  setReportedEnd {p : Parser} (h : I p) : I { p with reportedEnd := true }
  report {p : Parser} (h : I p) (problem : Problem) (span : Span) :
    I { p with session := p.session.report problem span }

/-- What was taken since a parser began. -/
theorem Parser.kept_tookRun (start : Parser) : Kept fun p => ∃ run, start.TookRun run p where
  advance := by
    rintro p ⟨run, took⟩
    obtain ⟨more, step⟩ := TookRun.exists_advance p
    exact ⟨_, took.trans step⟩
  setNextId := fun ⟨run, took⟩ _ => ⟨run, took.pending, took.consumed, took.upcoming⟩
  setBlockDepth := fun ⟨run, took⟩ _ => ⟨run, took.pending, took.consumed, took.upcoming⟩
  setReportedEnd := fun ⟨run, took⟩ => ⟨run, took.pending, took.consumed, took.upcoming⟩
  report := fun ⟨run, took⟩ _ _ => ⟨run, took.pending, took.consumed, took.upcoming⟩

namespace Comparison

/-- A parser of which something is true, compared with itself. -/
def keeping (I : Parser → Prop) : Comparison where
  toView := .exact
  token t t' := t' = t
  problem a a' := a' = a
  state p q := q = p ∧ I p

theorem lawful_keeping {I : Parser → Prop} (h : Parser.Kept I) : (keeping I).Lawful where
  join := by
    rintro a _ b _ rfl rfl
    rfl
  kind same := congrArg Token.kind same.symm
  tokenSpan same := congrArg Token.span same.symm
  name same := congrArg Token.text same.symm
  integer same _ := congrArg (fun t : Token => Integer.parse? t.text.toList) same.symm
  overflow same _ _ := congrArg (fun t : Token => Problem.integerOverflow t.text) same
  unexpected same expected :=
    congrArg (fun t : Token => Problem.unexpectedToken expected t.shown) same
  unterminated _ := rfl
  target := rfl
  nested same := congrArg Problem.nestedFunction same.symm
  current both := congrArg Parser.current both.1
  previousSpan both := congrArg Parser.previousSpan both.1.symm
  consumed both := congrArg Parser.consumed both.1.symm
  nextId both := congrArg Parser.nextId both.1.symm
  blockDepth both := congrArg Parser.blockDepth both.1.symm
  reportedEnd both := congrArg Parser.reportedEnd both.1.symm
  remaining both := congrArg Parser.remaining both.1.symm
  advance := by
    rintro _ p ⟨rfl, holds⟩
    exact ⟨rfl, h.advance holds⟩
  setNextId := by
    rintro _ p ⟨rfl, holds⟩ n
    exact ⟨rfl, h.setNextId holds n⟩
  setBlockDepth := by
    rintro _ p ⟨rfl, holds⟩ n
    exact ⟨rfl, h.setBlockDepth holds n⟩
  setReportedEnd := by
    rintro _ p ⟨rfl, holds⟩
    exact ⟨rfl, h.setReportedEnd holds⟩
  report := by
    rintro _ p ⟨rfl, holds⟩ _ a rfl span _ rfl
    exact ⟨rfl, h.report holds a span⟩

end Comparison

namespace Parse

open MiniLang.Parser Comparison

variable {g : Grammar} {I : Parser → Prop} {p q : Parser}

/-- What no step changes stays true while a statement, or a placeholder in its place, is read. -/
theorem kept_statementOrErrorFrom (h : Kept I) (holds : I p) (fuel : Nat) :
    I (statementOrErrorFrom g fuel p).2 :=
  ((lawful_keeping h).alikeStmts_statementOrErrorFrom g fuel p p ⟨rfl, holds⟩).1.2

/-- What no step changes is still true where a statement cannot be read. -/
theorem kept_statementWith_error (h : Kept I) (holds : I p) {fuel : Nat} {e : SyntaxError}
    (failed : statementWith g (statementOrErrorFrom g fuel) p = .error e q) : I q := by
  have law := lawful_keeping h
  have result := law.alike_statementWith g (law.alikeStmts_statementOrErrorFrom g fuel) p p
    ⟨rfl, holds⟩
  rw [failed] at result
  exact result.1.2

/-- What no step changes stays true while a block is read. -/
theorem kept_block (h : Kept I) (holds : I p) {b : Block}
    (read : block (statementOrError g) p = .ok b q) : I q := by
  have law := lawful_keeping h
  have result := law.alike_block (law.alikeStmts_statementOrError g) p p ⟨rfl, holds⟩
  rw [read] at result
  exact result.1.2

theorem kept_synchronizeFrom (h : Kept I) (holds : I p) (fuel depth : Nat) :
    I (p.synchronizeFrom fuel depth) :=
  ((lawful_keeping h).synchronizeFrom_alike fuel depth ⟨rfl, holds⟩).2

end Parse

end MiniLang
