import MiniLang.Proofs.Syntax.Parser.Progress
import MiniLang.Proofs.Syntax.Parser.Recovery.Expressions

/-!
# Statements with an unknown token

A statement that holds a spoilt integer itself fails silently at the unknown token, and recovery
skips just the rest of it: up to the semicolon, or up to the end of the block behind a condition
(`DerivesStmt.stops`, `spoilt_recovers`). A statement behind an `else` is read by the one in front
of it, so that this one fails as a whole.
-/

set_option autoImplicit false

namespace MiniLang

open Terminal (spoil behind skip)
open Dialect (plain_standard)

variable {k : Nat} {ts us rest : List Terminal} {e : Expr}

theorem Derives.skipped_behind {l : Stratum} (h : Derives .standard l ts e) (k : Nat) :
    ∀ t ∈ behind k ts, t.Skipped := fun t mem =>
  h.skipped t ((Terminal.behind_suffix k ts).subset mem)

/-- The rest of a statement up to its semicolon is skipped. -/
theorem Derives.skip_semicolon {l : Stratum} (h : Derives .standard l ts e) (k : Nat) :
    skip 0 (behind k ts ++ .fixed .semicolon :: rest) = rest :=
  Terminal.skip_append (h.skipped_behind k)

/-- The rest of a condition and the block behind it are skipped. -/
theorem Derives.skip_condition {l : Stratum} {b : Block} (h : Derives .standard l ts e) (k : Nat)
    (body : DerivesBlock .standard us b) :
    skip 0 (behind k ts ++ .fixed .closeParen :: (us ++ rest)) = rest :=
  (Terminal.skip_append (h.skipped_behind k)).trans
    ((Terminal.skip_of_skipped (by decide)).trans body.skip)

/-- The standard language has no placeholders, so that nothing has to be skipped. -/
theorem Dialect.standard_recovers : Dialect.standard.Recovers 0 :=
  ⟨fun _ => False.elim, fun _ => False.elim⟩

namespace Parse

open MiniLang.Parser

variable {p : Parser} {mid : List Terminal}

theorem stops_expression (h : Derives .standard .assignment ts e) (less : k < e.integers)
    (calm : p.Calm) (cut : p.ahead = spoil k ts ++ rest) :
    Stops (expression .standard .default) p (behind k ts ++ rest) := by
  have enough := p.length_ahead_le
  rw [cut, List.length_append, Terminal.length_spoil] at enough
  exact h.stops k less p.remaining .default p rest (by decide) calm cut (by omega)

theorem stops_condition (h : Derives .standard .assignment ts e) (less : k < e.integers)
    (calm : p.Calm) (cut : p.ahead = Terminal.inParens (spoil k ts) ++ rest) :
    Stops (condition .standard) p (behind k ts ++ .fixed .closeParen :: rest) := by
  rw [Terminal.inParens, List.cons_append, List.append_assoc] at cut
  exact .expect calm cut rfl fun q ahead calm => (stops_expression h less calm ahead).bind

theorem stops_letStatement {x : String} {declared : Option WrittenType}
    (h : Derives .standard .assignment ts e) (less : k < e.integers) (calm : p.Calm)
    (cut : p.ahead = .fixed .kwLet :: .identifier x ::
      (typeBehind .colon declared ++ .fixed .assignment :: (spoil k ts ++ rest))) :
    Stops (letStatement .standard) p (behind k ts ++ rest) := by
  refine .advance calm cut fun q₁ ahead calm => ?_
  refine .expect calm ahead rfl fun q₂ ahead calm => ?_
  have noSign : ∀ t us, .fixed .assignment :: (spoil k ts ++ rest) = t :: us →
      t.kind ≠ .colon := by
    rintro t us same
    obtain ⟨rfl, -⟩ := List.cons.inj same
    decide
  refine .behind (gives_typeAfter calm ahead noSign (by decide)) fun _ q₃ _ ahead calm => ?_
  exact .expect calm ahead rfl fun q₄ ahead calm => (stops_expression h less calm ahead).bind

theorem stops_returnStatement (h : Derives .standard .assignment ts e) (less : k < e.integers)
    (calm : p.Calm) (cut : p.ahead = .fixed .kwReturn :: (spoil k ts ++ rest)) :
    Stops (returnStatement .standard) p (behind k ts ++ rest) := by
  refine .advance calm cut fun q ahead calm => .kind ?_
  have kind : q.current.kind ≠ .semicolon := fun is =>
    absurd (is ▸ starts_of_begins (h.begins plain_standard.target) ahead) (by decide)
  rw [if_neg kind]
  exact ((stops_expression h less calm ahead).map (f := some)).bind

theorem stops_whileStatement {blockOf : Parse Block} (h : Derives .standard .assignment ts e)
    (less : k < e.integers) (calm : p.Calm)
    (cut : p.ahead = .fixed .kwWhile :: (Terminal.inParens (spoil k ts) ++ rest)) :
    Stops (whileStatement .standard blockOf) p (behind k ts ++ .fixed .closeParen :: rest) :=
  .advance calm cut fun _ ahead calm => (stops_condition h less calm ahead).bind

theorem stops_ifThen {blockOf : Parse Block} {rounds : Nat}
    (h : Derives .standard .assignment ts e) (less : k < e.integers) (calm : p.Calm)
    (cut : p.ahead = .fixed .kwIf :: (Terminal.inParens (spoil k ts) ++ rest)) :
    Stops (ifStatement .standard blockOf (rounds + 1)) p
      (behind k ts ++ .fixed .closeParen :: rest) :=
  .advance calm cut fun _ ahead calm => (stops_condition h less calm ahead).bind

/-- The statement behind an `else` fails. -/
theorem stops_elseIf {fuel rounds : Nat} {b : Block} {vs : List Terminal}
    (test : Derives .standard .assignment ts e) (yes : DerivesBlock .standard us b)
    (calm : p.Calm) (cut : p.ahead = .fixed .kwIf :: (Terminal.inParens ts ++
      (us ++ .fixed .kwElse :: .fixed .kwIf :: vs)))
    (enough : us.length ≤ fuel + 1)
    (h : ∀ q : Parser, q.Calm → q.ahead = .fixed .kwIf :: vs →
      Stops (ifStatement .standard (block (statementOrErrorFrom .standard fuel)) rounds) q rest) :
    Stops (ifStatement .standard (block (statementOrErrorFrom .standard fuel)) (rounds + 1)) p
      rest := by
  refine .advance calm cut fun q ahead calm => ?_
  refine .behind (gives_condition plain_standard.target test calm ahead) fun _ q₁ _ ahead calm => ?_
  have body := yes.gives plain_standard.target Dialect.standard_recovers fuel q₁ _ calm ahead enough
  rw [Nat.zero_mul] at body
  refine .behind body fun _ q₂ _ ahead calm => .kind ?_
  have kind : q₂.current.kind = .kwElse := kind_of_ahead_eq_cons ahead
  rw [if_pos kind]
  refine .advance calm ahead fun q₃ ahead calm => .kind ?_
  have kind : q₃.current.kind = .kwIf := kind_of_ahead_eq_cons ahead
  rw [if_pos kind]
  exact (h q₃ calm ahead).bind

theorem stops_form {inner : Parser → Stmt × Parser} (rule : StatementRule)
    (begins : Grammar.standard.statementRule p.current.kind = some rule)
    (h : Stops (statementForm .standard inner rule) p rest) :
    Stops (statementWith .standard inner) p rest := by
  refine .kind ?_
  rw [begins]
  exact h

/-! ## Recovery -/

/-- Where a statement fails silently, recovery stops where the terminals ahead say. -/
theorem recovering_stops {fuel : Nat}
    (stops : Stops (statementWith .standard (statementOrErrorFrom .standard fuel)) p mid)
    (skips : skip 0 mid = rest) (fewer : rest.length < p.ahead.length) :
    ∃ span q, statementOrErrorFrom .standard (fuel + 1) p = (.error span, q) ∧
      Gets 0 p q rest := by
  obtain ⟨e, q, failed, silent, gets⟩ := stops
  have recovered := gets_synchronize gets.calm
  rw [gets.ahead, skips] at recovered
  have moved : q.synchronize.consumed ≠ p.consumed := by
    obtain ⟨run, took⟩ := kept_synchronizeFrom (kept_tookRun p)
      (kept_statementWith_error (kept_tookRun p) ⟨[], .refl p⟩ failed) (q.remaining + 1) 0
    have length : q.synchronize.consumed + q.synchronize.pending.length =
      p.consumed + p.pending.length := took.length
    rw [← length_ahead, ← length_ahead, recovered.ahead] at length
    omega
  have reported : q.report e = q := if_pos silent
  refine ⟨p.current.span.join q.synchronize.previousSpan, q.synchronize, ?_, gets.trans recovered⟩
  rw [statementOrErrorFrom, recovering, failed]
  simp only [recover, reported, if_neg moved]

end Parse

open Parse
open MiniLang.Parser (kind_of_ahead_eq_cons)

/-- An `if` that holds the spoilt integer fails, in its condition or behind an `else`. -/
theorem DerivesChoice.stops {ts : List Terminal} {s : Stmt} (h : DerivesChoice .standard ts s)
    (k : Nat) (holds : s.holds k = true) (noElse : s.beforeElse k = false) (rest : List Terminal) :
    ∃ mid, skip 0 mid = rest ∧ ∀ (fuel rounds : Nat) (p : Parser), p.Calm →
      p.ahead = spoil k ts ++ rest → ts.length ≤ fuel + 1 → ts.length ≤ rounds →
      Stops (ifStatement .standard (block (statementOrErrorFrom .standard fuel)) rounds) p mid := by
  match h with
  | @DerivesChoice.ifThen _ ts us e b span test yes =>
    have less : k < e.integers := of_decide_eq_true holds
    refine ⟨_, test.skip_condition k yes, fun fuel rounds p calm cut enough enough' => ?_⟩
    simp only [List.length_cons] at enough'
    obtain ⟨n, rfl⟩ : ∃ n, rounds = n + 1 := Nat.exists_eq_succ_of_ne_zero (by omega)
    rw [Terminal.spoil_test test less, List.cons_append, List.append_assoc] at cut
    exact stops_ifThen test less calm cut
  | .ifThenElse _ _ _ =>
    -- the integer stands in the condition, in front of the `else`
    obtain ⟨le, -⟩ := Stmt.beforeElse_ifThenElse noElse
    cases (Stmt.holds_ifThenElse holds le).2
  | @DerivesChoice.elseIf _ ts us vs e b s span test yes no =>
    obtain ⟨le, inside⟩ := Stmt.beforeElse_ifThenElse noElse
    obtain ⟨le', held⟩ := Stmt.holds_ifThenElse holds le
    obtain ⟨mid, skips, stops⟩ := no.stops _ held (inside.2 (Nat.not_lt.2 le')) rest
    obtain ⟨vs, rfl⟩ := no.begins
    refine ⟨mid, skips, fun fuel rounds p calm cut enough enough' => ?_⟩
    simp only [List.length_cons, List.length_append] at enough enough'
    obtain ⟨n, rfl⟩ : ∃ n, rounds = n + 1 := Nat.exists_eq_succ_of_ne_zero (by omega)
    rw [Terminal.spoil_behind_test test le, Terminal.spoil_behind_else yes le',
      Terminal.spoil_fixed] at cut
    have cut' : p.ahead = .fixed .kwIf :: (Terminal.inParens ts ++ (us ++ .fixed .kwElse ::
        .fixed .kwIf :: (spoil (k - (e.integers + Stmt.integersIn b)) vs ++ rest))) := by
      simpa using cut
    refine stops_elseIf test yes calm cut' (by omega) fun q calm ahead => ?_
    refine stops fuel n q calm ?_ (by simp; omega) (by simp; omega)
    rw [ahead, Terminal.spoil_fixed]
    rfl

/-- A statement that holds the spoilt integer fails, and what is skipped is the rest of it. -/
theorem DerivesStmt.stops {s : Stmt} (h : DerivesStmt .standard ts s) (k : Nat)
    (holds : s.holds k = true) (noElse : s.beforeElse k = false) (fuel : Nat) {p : Parser}
    (calm : p.Calm) (cut : p.ahead = spoil k ts ++ rest) (enough : ts.length ≤ fuel + 1) :
    ∃ mid, skip 0 mid = rest ∧
      Stops (statementWith .standard (statementOrErrorFrom .standard fuel)) p mid := by
  cases h with
  | leave => cases holds
  | block _ => cases holds
  | error placeholder => exact placeholder.elim
  | @letVar ts value id span xSpan x declared derives =>
    have less : k < value.integers := of_decide_eq_true holds
    have none : Terminal.integers (typeBehind .colon declared) ≤ k := by simp
    rw [Terminal.spoil_fixed, Terminal.spoil_identifier, (Terminal.spoil_append_right _ none).1,
      integers_typeBehind, Nat.sub_zero, Terminal.spoil_fixed,
      (Terminal.spoil_append_left _ (derives.integers ▸ less)).1] at cut
    have cut : p.ahead = .fixed .kwLet :: .identifier x :: (typeBehind .colon declared ++
        .fixed .assignment :: (spoil k ts ++ .fixed .semicolon :: rest)) := by simpa using cut
    have kind : p.current.kind = .kwLet := kind_of_ahead_eq_cons cut
    exact ⟨_, derives.skip_semicolon k, stops_form .letVar (by rw [kind]; rfl)
      (stops_letStatement derives less calm cut)⟩
  | choice choice =>
    obtain ⟨mid, skips, stops⟩ := choice.stops k holds noElse rest
    have rounds := p.length_ahead_le
    rw [cut, List.length_append, Terminal.length_spoil] at rounds
    have kind : p.current.kind = .kwIf := by
      obtain ⟨us, rfl⟩ := choice.begins
      rw [Terminal.spoil_fixed] at cut
      exact kind_of_ahead_eq_cons cut
    exact ⟨mid, skips, stops_form .ifElse (by rw [kind]; rfl)
      (stops fuel (p.remaining + 1) p calm cut enough (by omega))⟩
  | @whileLoop ts us e b span test body =>
    have less : k < e.integers := of_decide_eq_true holds
    rw [Terminal.spoil_test test less, List.cons_append, List.append_assoc] at cut
    have kind : p.current.kind = .kwWhile := kind_of_ahead_eq_cons cut
    exact ⟨_, test.skip_condition k body, stops_form .whileLoop (by rw [kind]; rfl)
      (stops_whileStatement test less calm cut)⟩
  | @giveBack ts e span derives =>
    have less : k < e.integers := of_decide_eq_true holds
    rw [Terminal.spoil_fixed, (Terminal.spoil_append_left _ (derives.integers ▸ less)).1,
      List.cons_append, List.append_assoc] at cut
    have kind : p.current.kind = .kwReturn := kind_of_ahead_eq_cons cut
    exact ⟨_, derives.skip_semicolon k, stops_form .ret (by rw [kind]; rfl)
      (stops_returnStatement derives less calm cut)⟩
  | @expression ts e span derives =>
    have less : k < e.integers := of_decide_eq_true holds
    rw [(Terminal.spoil_append_left _ (derives.integers ▸ less)).1, List.append_assoc] at cut
    have starts := starts_of_begins (derives.begins plain_standard.target) cut
    have all : ∀ kind ∈ .unknown :: exprStarts, Grammar.standard.statementRule kind = none := by
      decide
    refine ⟨_, derives.skip_semicolon k, .kind ?_⟩
    rw [all _ starts]
    exact (stops_expression derives less calm cut).bind

end MiniLang
