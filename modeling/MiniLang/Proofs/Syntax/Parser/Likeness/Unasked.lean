import MiniLang.Proofs.Syntax.Parser.Invariant.Statements
import MiniLang.Proofs.Syntax.Parser.Likeness.Programs

/-!
# Parsers that are asked to stop

A parser that is asked to stop does not notice before its next checkpoint: between checkpoints it
does the same as the parser of the same tokens that nobody asks (`Parser.unasked`). At the
checkpoint it stops where it stands. So what it has read are the first rounds of the loop over the
top level, taken by a parser that nobody asked (`Parse.topLevel_asked`), and fewer rounds give the
beginning of what more rounds give (`Parse.topLevel_rounds`).
-/

set_option autoImplicit false

namespace MiniLang

/-- The same delivery without a request to stop. -/
def Delivery.unasked (d : Delivery) : Delivery := { d with cancels := false }

/-- The same session without a cancellation. -/
def Session.unasked (s : Session) : Session := { s with cancelAfter := none, cancelled := false }

/-- The parser of the same tokens that nobody asks to stop. -/
def Parser.unasked (p : Parser) : Parser :=
  { p with upcoming := p.upcoming.map Delivery.unasked, session := p.session.unasked }

theorem Session.uncancelled_unasked (s : Session) : s.unasked.Uncancelled := ⟨rfl, rfl⟩

/-- A checkpoint that a session without a cancellation would pass is passed, or the request is seen
and recorded. -/
theorem Session.checkpoint_cases {s : Session} (unseen : s.cancelled = false) (span : Span) :
    (∃ s', s.checkpoint span = (true, s') ∧ s'.cancelled = false ∧ s'.unasked = s.unasked) ∨
      ∃ s', s.checkpoint span = (false, s') ∧ s'.cancelled = true ∧
        s'.diagnostics = s.diagnostics ++ [.of .cancelled span] := by
  unfold checkpoint
  rw [if_neg (by simp [unseen])]
  split
  · exact .inl ⟨s, rfl, unseen, rfl⟩
  · exact .inl ⟨_, rfl, unseen, rfl⟩
  · exact .inr ⟨_, rfl, rfl, rfl⟩

namespace Parser

theorem notify_unasked (d : Delivery) (s : Session) :
    d.unasked.notify s.unasked = (d.notify s).unasked := by
  obtain ⟨token, problem, cancels⟩ := d
  cases cancels <;> rfl

theorem start_unasked (tokens : List Delivery) (s : Session) :
    start (tokens.map Delivery.unasked) s.unasked = (start tokens s).unasked := by
  cases tokens with
  | nil => rfl
  | cons d rest => exact congrArg (Parser.mk _ _ _ _ · _ _ _) (notify_unasked d s)

theorem atEnd_unasked (p : Parser) : p.unasked.atEnd = p.atEnd := rfl

theorem remaining_unasked (p : Parser) : p.unasked.remaining = p.remaining := by
  unfold remaining
  rw [atEnd_unasked]
  simp [unasked]

theorem advance_unasked (p : Parser) : p.unasked.advance = p.advance.unasked := by
  unfold advance
  rw [atEnd_unasked]
  split
  · rfl
  · cases more : p.upcoming with
    | nil => simp [unasked, more]
    | cons d rest =>
      simp only [unasked, more, List.map_cons, notify_unasked]
      rfl

/-- Taking a token may ask to stop, but nothing notices. -/
theorem cancelled_advance (p : Parser) : p.advance.session.cancelled = p.session.cancelled := by
  unfold advance
  split
  · rfl
  · split
    · rfl
    next d rest _ =>
      obtain ⟨token, problem, cancels⟩ := d
      cases cancels <;> rfl

end Parser

namespace Comparison

open MiniLang.Parser

/-- How a parser is compared with the one that nobody asks to stop, as long as it has not noticed:
nothing can be told apart. -/
def unasked : Comparison where
  toView := .exact
  token t t' := t' = t
  problem a a' := a' = a
  state p q := q = p.unasked ∧ p.session.cancelled = false

theorem lawful_unasked : unasked.Lawful where
  join := by
    rintro a _ b _ rfl rfl
    rfl
  kind h := congrArg Token.kind h.symm
  tokenSpan h := congrArg Token.span h.symm
  name h := congrArg Token.text h.symm
  integer := by
    rintro t _ rfl _
    rfl
  overflow := by
    rintro t _ rfl _ _
    rfl
  unexpected := by
    rintro t _ rfl expected
    rfl
  unterminated _ := rfl
  target := rfl
  nested h := congrArg Problem.nestedFunction h.symm
  current := by
    rintro p _ ⟨rfl, unseen⟩
    rfl
  previousSpan := by
    rintro p _ ⟨rfl, unseen⟩
    rfl
  consumed := by
    rintro p _ ⟨rfl, unseen⟩
    rfl
  nextId := by
    rintro p _ ⟨rfl, unseen⟩
    rfl
  blockDepth := by
    rintro p _ ⟨rfl, unseen⟩
    rfl
  reportedEnd := by
    rintro p _ ⟨rfl, unseen⟩
    rfl
  remaining := by
    rintro p _ ⟨rfl, unseen⟩
    exact (remaining_unasked p).symm
  advance := by
    rintro p _ ⟨rfl, unseen⟩
    exact ⟨advance_unasked p, (cancelled_advance p).trans unseen⟩
  setNextId := by
    rintro p _ ⟨rfl, unseen⟩ n
    exact ⟨rfl, unseen⟩
  setBlockDepth := by
    rintro p _ ⟨rfl, unseen⟩ n
    exact ⟨rfl, unseen⟩
  setReportedEnd := by
    rintro p _ ⟨rfl, unseen⟩
    exact ⟨rfl, unseen⟩
  report := by
    rintro p _ ⟨rfl, unseen⟩ a _ rfl span _ rfl
    exact ⟨rfl, unseen⟩

end Comparison

namespace Parse

open MiniLang.Parser

variable {g : Grammar} {p : Parser}

/-- A statement is read in the same way whether or not somebody asks to stop meanwhile, and this is
not noticed. -/
theorem statementOrError_unasked (unseen : p.session.cancelled = false) :
    statementOrError g p.unasked =
        ((statementOrError g p).1, (statementOrError g p).2.unasked) ∧
      (statementOrError g p).2.session.cancelled = false := by
  obtain ⟨⟨moved, still⟩, same⟩ := Comparison.lawful_unasked.alikeStmts_statementOrError g p
    p.unasked ⟨rfl, unseen⟩
  refine ⟨Prod.ext ?_ moved, still⟩
  rw [← Stmt.view_exact (statementOrError g p.unasked).1,
    ← Stmt.view_exact (statementOrError g p).1]
  exact same.symm

/-- What a round of the loop over the top level does if nobody asks to stop. -/
theorem topLevel_unasked_succ (more : p.atEnd = false) (unseen : p.session.cancelled = false)
    (rounds : Nat) :
    topLevel g (rounds + 1) p.unasked =
      ((statementOrError g p).1 ::
        (topLevel g rounds (statementOrError g p).2.unasked).1,
        (topLevel g rounds (statementOrError g p).2.unasked).2) := by
  have passes : p.unasked.session.checkpoint p.unasked.current.span = (true, p.unasked.session) :=
    p.session.uncancelled_unasked.checkpoint _
  rw [topLevel, atEnd_unasked, more, passes]
  simp only [Bool.false_eq_true, ↓reduceIte]
  rw [(statementOrError_unasked unseen).1]

/-- A parser that may be asked to stop gets to the end in the same way as one that nobody asks, or
it notices and has done some first rounds, after which it records just that. -/
theorem topLevel_asked : ∀ (fuel : Nat) {p : Parser}, p.session.cancelled = false →
    ((topLevel g fuel p).2.session.cancelled = false ∧
      topLevel g fuel p.unasked = ((topLevel g fuel p).1, (topLevel g fuel p).2.unasked)) ∨
    ((topLevel g fuel p).2.session.cancelled = true ∧
      ∃ rounds ≤ fuel, ∃ stop, topLevel g rounds p.unasked = ((topLevel g fuel p).1, stop) ∧
        stop.current = (topLevel g fuel p).2.current ∧
        (topLevel g fuel p).2.session.diagnostics =
          stop.session.diagnostics ++ [.of .cancelled stop.current.span])
  | 0, _, unseen => .inl ⟨unseen, rfl⟩
  | fuel + 1, p, unseen => by
    cases atEnd : p.atEnd with
    | true =>
      rw [topLevel, topLevel, atEnd_unasked, if_pos atEnd, if_pos atEnd]
      exact .inl ⟨unseen, rfl⟩
    | false =>
      rcases Session.checkpoint_cases unseen p.current.span with
        ⟨s, passed, still, same⟩ | ⟨s, stopped, seen, recorded⟩
      · -- the request, if there is one, is not seen at this checkpoint
        generalize asked : ({ p with session := s } : Parser) = p'
        have unasked : p'.unasked = p.unasked := by
          rw [← asked]
          exact congrArg (Parser.mk _ _ _ _ · _ _ _) same
        have more : p'.atEnd = false := by
          rw [← asked]
          exact atEnd
        have unseen' : p'.session.cancelled = false := by
          rw [← asked]
          exact still
        have run : topLevel g (fuel + 1) p =
            ((statementOrError g p').1 :: (topLevel g fuel (statementOrError g p').2).1,
              (topLevel g fuel (statementOrError g p').2).2) := by
          rw [topLevel, atEnd, passed]
          simp only [Bool.false_eq_true, ↓reduceIte, asked]
        have round := topLevel_unasked_succ (g := g) more unseen'
        rw [unasked] at round
        rw [run]
        rcases topLevel_asked fuel (statementOrError_unasked (g := g) unseen').2 with
          ⟨never, rest⟩ | ⟨noticed, rounds, le, stop, rest, here, last⟩
        · refine .inl ⟨never, ?_⟩
          rw [round, rest]
        · refine .inr ⟨noticed, rounds + 1, Nat.succ_le_succ le, stop, ?_, here, last⟩
          rw [round, rest]
      · have run : topLevel g (fuel + 1) p = ([], { p with session := s }) := by
          rw [topLevel, atEnd, stopped]
          rfl
        rw [run]
        exact .inr ⟨seen, 0, Nat.zero_le _, p.unasked, rfl, rfl, recorded⟩

/-- In either case it has done some first rounds, and stands where they end. -/
theorem topLevel_stopped (fuel : Nat) (unseen : p.session.cancelled = false) :
    ∃ rounds stop, topLevel g rounds p.unasked = ((topLevel g fuel p).1, stop) ∧
      stop.current = (topLevel g fuel p).2.current := by
  rcases topLevel_asked fuel unseen with ⟨-, same⟩ | ⟨-, rounds, -, stop, same, here, -⟩
  · exact ⟨fuel, _, same, rfl⟩
  · exact ⟨rounds, stop, same, here⟩

/-- Fewer rounds give the beginning of what more rounds give. -/
theorem topLevel_rounds {rounds fuel : Nat} (le : rounds ≤ fuel) {p : Parser}
    (found : ∀ d ∈ p.upcoming, ∀ problem ∈ d.problem, problem.InProgram) :
    (topLevel g rounds p).1 <+: (topLevel g fuel p).1 ∧
      (topLevel g rounds p).2.session.diagnostics <+:
        (topLevel g fuel p).2.session.diagnostics := by
  have law := Invariant.lawful_begins p.session.diagnostics
  have within : p.Within (.begins p.session.diagnostics) :=
    ⟨trivial, fun d mem => ⟨trivial, found d mem⟩, trivial, .inr fun _ _ => trivial,
      List.prefix_refl _⟩
  cases rounds with
  | zero => exact ⟨List.nil_prefix, (topLevel_kept law g fuel within).1.session⟩
  | succ rounds =>
    obtain ⟨fuel, rfl⟩ : ∃ n, fuel = n + 1 := ⟨fuel - 1, by omega⟩
    rw [topLevel, topLevel]
    split
    · exact ⟨List.prefix_refl _, List.prefix_refl _⟩
    · have asked := within.withSession (law.checkpoint within.session within.current)
      simp only
      split
      · have onward := (keepsStmt_statementOrError law g _ asked).1
        obtain ⟨body, recorded⟩ := topLevel_rounds (Nat.le_of_succ_le_succ le)
          fun d mem => (onward.upcoming d mem).found
        exact ⟨List.cons_prefix_cons.2 ⟨rfl, body⟩, recorded⟩
      · exact ⟨List.prefix_refl _, List.prefix_refl _⟩
termination_by rounds

end Parse

end MiniLang
