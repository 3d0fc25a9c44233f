import MiniLang.Proofs.Syntax.Parser.Recovery.Skipping
import MiniLang.Proofs.Syntax.Spoiling

/-!
# Expressions with an unknown token

With an unknown token in place of one of its integers, an expression is read up to this token and
not any further (`Derives.stops`). The error is silent, since there is a complaint about the token
already. The induction is on the derivation: what stands in front of the token is read as without
it, and then the part fails that the token belongs to.
-/

set_option autoImplicit false

namespace MiniLang

open Terminal (spoil behind)

namespace Parse

open MiniLang.Parser

variable {α β : Type} {p q : Parser} {rest mid : List Terminal}

/-- An action fails silently, where `rest` is ahead, and nothing was recorded. -/
def Stops (action : Parse α) (p : Parser) (rest : List Terminal) : Prop :=
  ∃ e q, action p = .error e q ∧ e.silent = true ∧ Gets 0 p q rest

namespace Stops

theorem of_eq {action action' : Parse α} (same : action p = action' p)
    (h : Stops action' p rest) : Stops action p rest := by
  obtain ⟨e, q, failed, silent, gets⟩ := h
  exact ⟨e, q, same.trans failed, silent, gets⟩

/-- What comes afterwards does not matter. -/
theorem bind {action : Parse α} {after : α → Parse β} (h : Stops action p rest) :
    Stops (action >>= after) p rest := by
  obtain ⟨e, q, failed, silent, gets⟩ := h
  refine ⟨e, q, ?_, silent, gets⟩
  change EStateM.bind action after p = _
  simp only [EStateM.bind, failed]

theorem map {action : Parse α} {f : α → β} (h : Stops action p rest) :
    Stops (f <$> action) p rest := by
  change Stops (action >>= fun a => Pure.pure (f a)) p rest
  exact h.bind

/-- Failing behind an action that gives a value. -/
theorem behind {action : Parse α} {after : α → Parse β} {holds : α → Prop}
    (h : Gives 0 action p holds mid)
    (h' : ∀ a q, holds a → q.ahead = mid → q.Calm → Stops (after a) q rest) :
    Stops (action >>= after) p rest := by
  obtain ⟨a, q, result, value, gets⟩ := h
  obtain ⟨e, r, failed, silent, gets'⟩ := h' a q value gets.ahead gets.calm
  refine ⟨e, r, ?_, silent, gets.trans gets'⟩
  change EStateM.bind action after p = _
  simp only [EStateM.bind, result, failed]

theorem kind {after : TokenKind → Parse β} (h : Stops (after p.current.kind) p rest) :
    Stops (currentKind >>= after) p rest := h

theorem advance {after : Token → Parse β} {t : Terminal} (calm : p.Calm) (cut : p.ahead = t :: mid)
    (h : ∀ q : Parser, q.ahead = mid → q.Calm → Stops (after p.current) q rest) :
    Stops (Parse.advance >>= after) p rest := by
  have first : Gives 0 Parse.advance p (fun t => t = p.current) mid :=
    ⟨_, _, rfl, rfl, gets_advance calm cut⟩
  refine behind first fun a q is ahead calm => ?_
  rw [is]
  exact h q ahead calm

theorem expect {kind : TokenKind} {expected : String} {after : Token → Parse β} {t : Terminal}
    (calm : p.Calm) (cut : p.ahead = t :: mid) (is : t.kind = kind)
    (h : ∀ q : Parser, q.ahead = mid → q.Calm → Stops (after p.current) q rest) :
    Stops (Parse.expect kind expected >>= after) p rest := by
  have same : Parse.expect kind expected p = Parse.advance p :=
    if_pos ((kind_of_ahead_eq_cons cut).trans is)
  refine of_eq ?_ (advance calm cut h)
  change EStateM.bind _ after p = EStateM.bind _ after p
  simp only [EStateM.bind, same]

end Stops

/-! ## The forms -/

/-- A form that begins an expression fails. -/
theorem stops_of_prefixForm {fuel : Nat} {power : BindingPower} (rule : PrefixRule)
    (begins : Grammar.standard.prefixRule p.current.kind = some rule)
    (h : Stops (prefixForm (expressionFrom .standard fuel) rule) p rest) :
    Stops (expressionFrom .standard (fuel + 1) power) p rest := by
  have whole : Stops (prefixForm (expressionFrom .standard fuel) rule >>= fun left =>
      bounded fun rounds => extend .standard (expressionFrom .standard fuel) power rounds left)
      p rest := h.bind
  refine .of_eq ?_ whole
  rw [expressionFrom_succ, begins]

/-- A form behind a left operand fails. -/
theorem Heads.stops {fuel : Nat} {power own : BindingPower} {rule : InfixRule} {a : Expr}
    {t : Terminal} (h : Heads fuel power p a (t :: mid))
    (continues : Grammar.standard.infixRule t.kind = some (own, rule))
    (tighter : power.level < own.level)
    (step : ∀ (left : Expr) (q : Parser), q.Calm → q.ahead = t :: mid →
      Stops (infixForm (expressionFrom .standard fuel) own left rule) q rest) :
    Stops (expressionFrom .standard (fuel + 1) power) p rest := by
  obtain ⟨rounds, left, q, reaches, -, less, gets⟩ := h
  obtain ⟨e, r, failed, silent, gets'⟩ := step left q gets.calm gets.ahead
  rw [List.length_cons] at less
  obtain ⟨n, rfl⟩ := Nat.exists_eq_succ_of_ne_zero (Nat.ne_zero_of_lt less)
  refine ⟨e, r, ?_, silent, gets.trans gets'⟩
  rw [← kind_of_ahead_eq_cons gets.ahead] at continues
  rw [reaches, extend_succ, continues]
  simp only [Nat.not_le.2 tighter, ↓reduceIte]
  change EStateM.bind _ _ q = _
  simp only [EStateM.bind, failed]

/-- An unknown token is taken. -/
theorem stops_unknown {fuel : Nat} {power : BindingPower} (calm : p.Calm)
    (cut : p.ahead = .fixed .unknown :: rest) :
    Stops (expressionFrom .standard (fuel + 1) power) p rest := by
  have kind : p.current.kind = .unknown := kind_of_ahead_eq_cons cut
  refine stops_of_prefixForm .unknown (by rw [kind]; rfl) ?_
  refine .advance calm cut fun q ahead calm => ⟨_, q, rfl, ?_, .refl calm ahead⟩
  simp [SyntaxError.unexpected, kind]

theorem stops_binaryOperation {inner : ExprParser} {own : BindingPower} {kind : TokenKind}
    {op : BinaryOp} {left : Expr} (calm : p.Calm) (cut : p.ahead = .fixed kind :: mid)
    (stands : BinaryOp.ofToken? kind = some op)
    (h : ∀ q : Parser, q.Calm → q.ahead = mid → Stops (inner own) q rest) :
    Stops (binaryOperation inner own left) p rest := by
  refine .advance calm cut fun q ahead calm => ?_
  rw [kind_of_ahead_eq_cons cut, Terminal.kind, stands]
  exact (h q calm ahead).bind

theorem stops_assignment {inner : ExprParser} {left : Expr} {t : Terminal} (calm : p.Calm)
    (cut : p.ahead = t :: mid)
    (h : ∀ q : Parser, q.Calm → q.ahead = mid → Stops (inner .default) q rest) :
    Stops (assignment inner left) p rest :=
  .advance calm cut fun q ahead calm => (h q calm ahead).bind

theorem stops_unaryOperation {inner : ExprParser} {t : Terminal} (calm : p.Calm)
    (cut : p.ahead = t :: mid)
    (h : ∀ q : Parser, q.Calm → q.ahead = mid → Stops (inner .unary) q rest) :
    Stops (unaryOperation inner) p rest :=
  .advance calm cut fun q ahead calm => (h q calm ahead).bind

theorem stops_grouping {inner : ExprParser} {t : Terminal} (calm : p.Calm)
    (cut : p.ahead = t :: mid)
    (h : ∀ q : Parser, q.Calm → q.ahead = mid → Stops (inner .default) q rest) :
    Stops (grouping inner) p rest :=
  .advance calm cut fun q ahead calm => (h q calm ahead).bind

theorem stops_call {inner : ExprParser} {f : String} (calm : p.Calm)
    (cut : p.ahead = .identifier f :: .fixed .openParen :: mid)
    (h : ∀ q : Parser, q.Calm → q.ahead = mid → Stops (arguments inner) q rest) :
    Stops (nameOrCall inner) p rest := by
  refine .advance calm cut fun q ahead calm => .kind ?_
  have kind : q.current.kind = .openParen := kind_of_ahead_eq_cons ahead
  rw [if_pos kind]
  exact .advance calm ahead fun r ahead calm => (h r calm ahead).bind

end Parse

open Parse
open MiniLang.Parser (kind_of_ahead_eq_cons)
open Dialect (plain_standard)

/-! ## Derivations -/

/-- A spoilt expression begins like an expression, or with the unknown token. -/
theorem starts_of_begins {ts rest : List Terminal} {k : Nat} {p : Parser}
    (h : ∃ t us, ts = t :: us ∧ t.kind ∈ exprStarts) (cut : p.ahead = spoil k ts ++ rest) :
    p.current.kind ∈ .unknown :: exprStarts := by
  obtain ⟨t, us, rfl, begins⟩ := h
  obtain ⟨t', us', spoilt, same⟩ := Terminal.spoil_cons k t us
  rw [spoilt] at cut
  rw [kind_of_ahead_eq_cons cut]
  rcases same with same | same
  · exact List.mem_cons_of_mem _ (same ▸ begins)
  · exact same ▸ List.mem_cons_self

mutual

/-- With an unknown token in place of its integer `k`, an expression is read up to this token. -/
theorem Derives.stops {l : Stratum} {ts : List Terminal} {e : Expr}
    (h : Derives .standard l ts e) (k : Nat) (less : k < e.integers) :
    ∀ (fuel : Nat) (power : BindingPower) (p : Parser) (rest : List Terminal),
      power.level < l.rank → p.Calm → p.ahead = spoil k ts ++ rest → ts.length ≤ fuel + 1 →
      Stops (expressionFrom .standard (fuel + 1) power) p (behind k ts ++ rest) := by
  match h with
  | .yes | .no | .name => exact absurd less (Nat.not_lt_zero _)
  | .integer _ =>
    intro fuel power p rest tighter calm cut enough
    obtain rfl : k = 0 := Nat.lt_one_iff.1 less
    exact stops_unknown calm cut
  | @Derives.tighter _ l ts e h =>
    intro fuel power p rest tighter calm cut enough
    exact h.stops k less fuel power p rest (tighter.trans_le l.rank_le_rank_next) calm cut enough
  | @Derives.binary _ l kind op ts us a b id span mem left right =>
    intro fuel power p rest tighter calm cut enough
    obtain ⟨own, binds, stands, rank, deeper, notAssignment, -⟩ := Stratum.mem_operators mem
    have some := left.length_pos plain_standard.target
    have some' := right.length_pos plain_standard.target
    simp only [List.length_append, List.length_cons] at enough
    obtain ⟨n, rfl⟩ : ∃ n, fuel = n + 1 := Nat.exists_eq_succ_of_ne_zero (by omega)
    by_cases here : k < a.integers
    · obtain ⟨spoilt, behind⟩ := Terminal.spoil_append_left (.fixed kind :: us)
        (left.integers ▸ here)
      rw [spoilt, List.append_assoc] at cut
      rw [behind, List.append_assoc]
      exact left.stops k here (n + 1) power p _ tighter calm cut (by omega)
    · have le : a.integers ≤ k := Nat.not_lt.1 here
      rw [Expr.integers] at less
      obtain ⟨spoilt, behind⟩ := Terminal.spoil_append_right (.fixed kind :: us)
        (left.integers.trans_le le)
      rw [spoilt, Terminal.spoil_fixed, List.append_assoc, List.cons_append] at cut
      rw [behind, Terminal.behind_fixed]
      have reached := left.heads plain_standard.target (n + 1) power p _ tighter calm cut
        (Stratum.ends_operator mem) (by omega)
      refine reached.stops binds (rank ▸ tighter) fun left' q calm cut => ?_
      refine stops_binaryOperation calm cut stands fun r calm cut => ?_
      rw [left.integers] at cut ⊢
      exact right.stops _ (by omega) n own r rest (rank ▸ deeper) calm cut (by omega)
  | @Derives.assignment _ ts us x value id span xSpan target derives =>
    intro fuel power p rest tighter calm cut enough
    obtain rfl : ts = [.identifier x] := target
    simp only [List.length_append, List.length_cons] at enough
    have some := derives.length_pos plain_standard.target
    obtain ⟨n, rfl⟩ : ∃ n, fuel = n + 1 := Nat.exists_eq_succ_of_ne_zero (by omega)
    have cut' : p.ahead = [.identifier x] ++ .fixed .assignment :: (spoil k us ++ rest) := by
      simpa using cut
    have reached := heads_enclosed (.name x) (n + 1) power p _ calm cut'
      (fun _ same => by cases same) (Nat.le_add_left ..)
    simp only [List.cons_append, List.nil_append, Terminal.behind_identifier,
      Terminal.behind_fixed]
    refine reached.stops rfl tighter fun left q calm cut => ?_
    refine stops_assignment calm cut fun q calm cut => ?_
    exact derives.stops k less n .default q rest (by decide) calm cut (by omega)
  | @Derives.unary _ kind op ts e id span mem derives =>
    intro fuel power p rest tighter calm cut enough
    have some := derives.length_pos plain_standard.target
    rw [List.length_cons] at enough
    obtain ⟨n, rfl⟩ : ∃ n, fuel = n + 1 := Nat.exists_eq_succ_of_ne_zero (by omega)
    rw [Terminal.spoil_fixed, List.cons_append] at cut
    rw [Terminal.behind_fixed]
    refine stops_of_prefixForm .operator ?_ ?_
    · rw [kind_of_ahead_eq_cons cut]
      simp only [UnaryOp.tokens, List.mem_cons, List.not_mem_nil, Prod.mk.injEq, or_false] at mem
      rcases mem with ⟨rfl, rfl⟩ | ⟨rfl, rfl⟩ <;> rfl
    · refine stops_unaryOperation calm cut fun q calm cut => ?_
      exact derives.stops k less n .unary q rest (by decide) calm cut (by omega)
  | @Derives.group _ ts e derives =>
    intro fuel power p rest tighter calm cut enough
    have some := derives.length_pos plain_standard.target
    obtain ⟨spoilt, behind⟩ := Terminal.spoil_inParens (derives.integers ▸ less)
    rw [spoilt, Terminal.inParens, List.cons_append, List.append_assoc] at cut
    rw [behind, List.append_assoc]
    simp only [Terminal.inParens, List.length_cons, List.length_append] at enough
    obtain ⟨n, rfl⟩ : ∃ n, fuel = n + 1 := Nat.exists_eq_succ_of_ne_zero (by omega)
    refine stops_of_prefixForm .grouping (by rw [kind_of_ahead_eq_cons cut]; rfl) ?_
    refine stops_grouping calm cut fun q calm cut => ?_
    exact derives.stops k less n .default q _ (by decide) calm cut (by omega)
  | @Derives.call _ f ts es id span fSpan derives =>
    intro fuel power p rest tighter calm cut enough
    have less : k < Expr.integersAll es := less
    obtain ⟨spoilt, behind⟩ := Terminal.spoil_inParens (derives.integers ▸ less)
    rw [Terminal.spoil_identifier, spoilt, Terminal.inParens, List.cons_append, List.cons_append,
      List.append_assoc] at cut
    rw [Terminal.behind_identifier, behind, List.append_assoc]
    simp only [Terminal.inParens, List.length_cons, List.length_append] at enough
    obtain ⟨n, rfl⟩ : ∃ n, fuel = n + 1 := Nat.exists_eq_succ_of_ne_zero (by omega)
    refine stops_of_prefixForm .name (by rw [kind_of_ahead_eq_cons cut]; rfl) ?_
    refine stops_call calm cut fun q calm cut => ?_
    exact derives.stops k less n q _ calm cut (by omega)

/-- Arguments of a call. -/
theorem DerivesArguments.stops {ts : List Terminal} {es : List Expr}
    (h : DerivesArguments .standard ts es) (k : Nat) (less : k < Expr.integersAll es) :
    ∀ (fuel : Nat) (p : Parser) (rest : List Terminal), p.Calm → p.ahead = spoil k ts ++ rest →
      ts.length ≤ fuel + 1 →
      Stops (arguments (expressionFrom .standard (fuel + 1))) p (behind k ts ++ rest) := by
  match h with
  | .none => exact absurd less (Nat.not_lt_zero _)
  | .some derives =>
    intro fuel p rest calm cut enough
    refine .kind ?_
    have kind : p.current.kind ≠ .closeParen := fun is =>
      absurd (is ▸ starts_of_begins (derives.begins plain_standard.target) cut) (by decide)
    rw [if_neg kind]
    have rounds := p.length_ahead_le
    rw [cut, List.length_append, Terminal.length_spoil] at rounds
    exact derives.stops k less fuel (p.remaining + 1) p rest calm cut enough (by omega)

theorem DerivesSeparated.stops {ts : List Terminal} {es : List Expr}
    (h : DerivesSeparated .standard ts es) (k : Nat) (less : k < Expr.integersAll es) :
    ∀ (fuel rounds : Nat) (p : Parser) (rest : List Terminal), p.Calm →
      p.ahead = spoil k ts ++ rest → ts.length ≤ fuel + 1 → ts.length ≤ rounds →
      Stops (commaSeparated (expressionFrom .standard (fuel + 1)) rounds) p
        (behind k ts ++ rest) := by
  match h with
  | @DerivesSeparated.last _ ts e derives =>
    intro fuel rounds p rest calm cut enough enough'
    have some := derives.length_pos plain_standard.target
    obtain ⟨n, rfl⟩ : ∃ n, rounds = n + 1 := Nat.exists_eq_succ_of_ne_zero (by omega)
    exact (derives.stops k less fuel .default p rest (by decide) calm cut enough).bind
  | @DerivesSeparated.cons _ ts us e es derives derives' =>
    intro fuel rounds p rest calm cut enough enough'
    have some := derives.length_pos plain_standard.target
    simp only [List.length_append, List.length_cons] at enough enough'
    obtain ⟨n, rfl⟩ : ∃ n, rounds = n + 1 := Nat.exists_eq_succ_of_ne_zero (by omega)
    by_cases here : k < e.integers
    · obtain ⟨spoilt, behind⟩ := Terminal.spoil_append_left (.fixed .comma :: us)
        (derives.integers ▸ here)
      rw [spoilt, List.append_assoc] at cut
      rw [behind, List.append_assoc]
      exact (derives.stops k here fuel .default p _ (by decide) calm cut (by omega)).bind
    · have le : e.integers ≤ k := Nat.not_lt.1 here
      rw [Expr.integersAll] at less
      obtain ⟨spoilt, behind⟩ := Terminal.spoil_append_right (.fixed .comma :: us)
        (derives.integers.trans_le le)
      rw [spoilt, Terminal.spoil_fixed, List.append_assoc, List.cons_append] at cut
      rw [behind, Terminal.behind_fixed]
      have first := derives.heads plain_standard.target fuel .default p _ (by decide) calm cut
        (Stratum.ends_of_loose rfl (by decide)) (by omega)
      refine .behind (first.done (Nat.zero_le _)) fun e' q _ ahead calm => .kind ?_
      have kind : q.current.kind = .comma := kind_of_ahead_eq_cons ahead
      rw [if_pos kind]
      refine .advance calm ahead fun r ahead calm => ?_
      rw [derives.integers] at ahead ⊢
      exact (derives'.stops _ (by omega) fuel n r rest calm ahead (by omega) (by omega)).bind

end

end MiniLang
