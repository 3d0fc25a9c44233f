import MiniLang.Proofs.Syntax.Parser.Ahead
import MiniLang.Proofs.Syntax.Sites

/-!
# What is read is derived

An expression that a parser reads is one that the grammar derives in place from the tokens that were
taken (`meets_expression`). The loop that extends an expression keeps a stratum for what was read so
far, and the next token never binds tighter than this stratum; so the next operator finds an operand
of its own stratum on its left, however loosely that was put together.
-/

set_option autoImplicit false

namespace MiniLang

namespace BindingPower

/-- The loosest stratum of the expressions that are read at a power. -/
def above : BindingPower → Stratum
  | default => .assignment
  | assignment => .logicalOr
  | logicalOr => .logicalAnd
  | logicalAnd => .equality
  | equality => .relational
  | relational => .additive
  | additive => .multiplicative
  | multiplicative => .unary
  | unary => .unary
  | primary => .unary

theorem rank_above_le_unary (power : BindingPower) : power.above.rank ≤ Stratum.unary.rank := by
  cases power <;> decide

theorem rank_above_le {power : BindingPower} {l : Stratum} (h : power.level < l.rank) :
    power.above.rank ≤ l.rank := by
  cases power <;> cases l <;> first | decide | exact absurd h (by decide)

end BindingPower

/-- Every token of a binary operator belongs to the stratum of its binding power. -/
theorem exists_operators {kind : TokenKind} {power : BindingPower}
    (binds : Grammar.standard.infixRule kind = some (power, .operator)) :
    ∃ op, BinaryOp.ofToken? kind = some op ∧ ∃ l : Stratum, (kind, op) ∈ l.operators ∧
      l.rank = power.level ∧ l.next = power.above := by
  cases kind <;> cases binds <;> first
    | exact ⟨_, rfl, .logicalOr, by decide, rfl, rfl⟩
    | exact ⟨_, rfl, .logicalAnd, by decide, rfl, rfl⟩
    | exact ⟨_, rfl, .equality, by decide, rfl, rfl⟩
    | exact ⟨_, rfl, .relational, by decide, rfl, rfl⟩
    | exact ⟨_, rfl, .additive, by decide, rfl, rfl⟩
    | exact ⟨_, rfl, .multiplicative, by decide, rfl, rfl⟩

namespace Parse

open MiniLang.Parser

variable {d : Dialect} {p q : Parser}

/-- The dialect accepts whatever stands for a name before the sign of an assignment ahead. -/
def Accepts (d : Dialect) (p : Parser) : Prop :=
  ∀ ts x, Enclosed ts x → ts ++ [.fixed .assignment] <:+: p.ahead → d.target ts x

theorem Accepts.onward (h : Accepts d p) (step : Onward p q) : Accepts d q :=
  fun ts x enclosed mem => h ts x enclosed (mem.trans step.ahead.isInfix)

/-- Between two parsers stand tokens that form something. -/
def Reads (forms : List Token → Prop) (p q : Parser) : Prop :=
  ∃ ts, p.pending = ts ++ q.pending ∧ forms ts

/-- An expression that binds tighter than a power was read, and the next token binds no tighter. -/
structure ReadsAbove (d : Dialect) (power : BindingPower) (e : Expr) (p q : Parser) : Prop where
  reads : Reads (Sited d power.above · e) p q
  pull : q.pull ≤ power.level

/-- A parser of expressions reads what the grammar derives. -/
def SoundExpr (d : Dialect) (inner : ExprParser) : Prop :=
  ∀ power p, Accepts d p → Meets (inner power) p fun e q => ReadsAbove d power e p q

variable {inner : ExprParser}

/-- A node that takes nothing more. -/
theorem meets_node {l : Stratum} {e : NodeId → Expr} (start : Parser) (ts : List Token)
    (cut : start.pending = ts ++ p.pending) (derives : ∀ id, Sited d l ts (e id)) :
    Meets (do return e (← freshId)) p fun e q =>
      q.pull = p.pull ∧ Reads (Sited d l · e) start q := by
  refine .freshId fun q _ pending current _ => .pure ⟨?_, ts, ?_, derives _⟩
  · rw [pull, current, pull]
  · rw [pending, cut]

theorem meets_literal (begins : Grammar.standard.prefixRule p.current.kind = some .literal) :
    Meets literal p fun e q => Reads (Sited d .primary · e) p q := by
  have more : p.current.kind ≠ .endOfInput := fun ends => by
    rw [ends] at begins
    cases begins
  have cut := pending_of_kind rfl more
  refine .advance ?_
  have node : ∀ value : Literal,
      (∀ id, Sited d .primary [p.current] (.literal id p.current.span value)) →
      Meets (do return .literal (← freshId) p.current.span value) p.advance
        fun e q => Reads (Sited d .primary · e) p q := by
    intro value derives
    exact (meets_node p _ cut derives).imp fun _ _ _ ⟨_, reads⟩ => reads
  split
  next kind =>
    split
    next value parsed =>
      exact node _ fun _ => .integer kind parsed
    next =>
      have failing : Meets (throw ⟨.integerOverflow p.current.text, p.current.span, false⟩ :
          Parse Literal) p.advance fun _ _ => False := .fail rfl (fun _ => rfl) rfl
      exact failing.bind fun _ _ _ none => none.elim
  next kind => exact node _ fun _ => .yes kind
  next kind => exact node _ fun _ => .no kind
  next notInteger notTrue notFalse =>
    exfalso
    cases kind : p.current.kind <;> simp_all [Grammar.standard]

theorem meets_commaSeparated (sound : SoundExpr d inner) :
    ∀ (fuel : Nat) (p : Parser), Accepts d p → p.ahead.length < fuel →
      Meets (commaSeparated inner fuel) p fun es q => Reads (SitedSeparated d · es) p q
  | 0, _, _, less => absurd less (Nat.not_lt_zero _)
  | fuel + 1, p, accepts, less => by
    refine (sound .default p accepts).bind fun first q step ⟨⟨ts, cut, derives⟩, _⟩ => .kind ?_
    refine .ite (fun comma => ?_) fun _ => .pure ⟨ts, cut, .last derives⟩
    have cut' := pending_of_kind comma (by decide)
    have fewer : q.advance.ahead.length < fuel := by
      have := step.length_le
      rw [length_ahead, cut', List.length_cons] at this
      rw [length_ahead]
      omega
    have accepts' := accepts.onward (step.trans (onward_advance q))
    refine .advance ((meets_commaSeparated sound fuel q.advance accepts' fewer).bind ?_)
    intro rest r _ ⟨us, cut'', derives'⟩
    refine .pure ⟨ts ++ q.current :: us, ?_, .cons derives comma derives'⟩
    rw [cut, cut', cut'']
    simp

theorem meets_arguments (sound : SoundExpr d inner) (accepts : Accepts d p) :
    Meets (arguments inner) p fun es q => Reads (SitedArguments d · es) p q := by
  refine .kind (.ite (fun _ => .pure ⟨[], rfl, .none⟩) fun _ => .bounded ?_)
  have fewer := Nat.lt_succ_of_le p.length_ahead_le
  exact (meets_commaSeparated sound _ p accepts fewer).imp fun es q _ ⟨ts, cut, derives⟩ =>
    ⟨ts, cut, .some derives⟩

theorem meets_nameOrCall (sound : SoundExpr d inner) (accepts : Accepts d p)
    (begins : p.current.kind = .identifier) :
    Meets (nameOrCall inner) p fun e q => Reads (Sited d .primary · e) p q := by
  have name := pending_of_kind begins (by decide)
  refine .advance (.kind (.ite (fun opens => ?_) fun _ => ?_))
  · have opening := pending_of_kind opens (by decide)
    have accepts' := (accepts.onward (onward_advance p)).onward (onward_advance _)
    refine .advance ((meets_arguments sound accepts').bind fun es q _ ⟨ts, cut, derives⟩ => ?_)
    refine .expectClosing fun closes => ?_
    have closing := pending_of_kind closes (by decide)
    refine (meets_node p (p.current :: p.advance.current :: (ts ++ [q.current])) ?_
      fun _ => .call begins opens derives closes).imp fun _ _ _ both => both.2
    rw [name, opening, cut, closing]
    simp
  · exact (meets_node p [_] name fun _ => .name begins).imp fun _ _ _ both => both.2

theorem meets_unaryOperation (sound : SoundExpr d inner) (accepts : Accepts d p)
    (begins : Grammar.standard.prefixRule p.current.kind = some .operator) :
    Meets (unaryOperation inner) p fun e q => Reads (Sited d .unary · e) p q := by
  obtain ⟨op, stands, mem, more⟩ : ∃ op,
      (if p.current.kind = .dash then UnaryOp.neg else .not) = op ∧
        (p.current.kind, op) ∈ UnaryOp.tokens ∧ p.current.kind ≠ .endOfInput := by
    refine ⟨_, rfl, ?_⟩
    cases kind : p.current.kind <;> simp_all [Grammar.standard] <;> decide
  refine .advance ((sound .unary _ (accepts.onward (onward_advance p))).bind ?_)
  intro e q _ ⟨⟨ts, cut, derives⟩, _⟩
  rw [stands]
  refine (meets_node p (p.current :: ts) ?_ fun _ => .unary mem derives).imp
    fun _ _ _ ⟨_, reads⟩ => reads
  rw [pending_of_kind rfl more, cut, List.cons_append]

theorem meets_grouping (sound : SoundExpr d inner) (accepts : Accepts d p)
    (begins : p.current.kind = .openParen) :
    Meets (grouping inner) p fun e q => Reads (Sited d .primary · e) p q := by
  have opening := pending_of_kind begins (by decide)
  refine .advance ((sound .default _ (accepts.onward (onward_advance p))).bind ?_)
  intro e q _ ⟨⟨ts, cut, derives⟩, _⟩
  refine .expectClosing fun closes =>
    .pure ⟨p.current :: (ts ++ [q.current]), ?_, .group begins derives closes⟩
  rw [opening, cut, pending_of_kind closes (by decide)]
  simp

/-- Every form that begins an expression reads an operand of an operator. -/
theorem meets_prefixForm (sound : SoundExpr d inner) (accepts : Accepts d p) {rule : PrefixRule}
    (begins : Grammar.standard.prefixRule p.current.kind = some rule) :
    Meets (prefixForm inner rule) p fun e q => Reads (Sited d .unary · e) p q := by
  have primary : ∀ {action : Parse Expr},
      Meets action p (fun e q => Reads (Sited d .primary · e) p q) →
      Meets action p fun e q => Reads (Sited d .unary · e) p q := fun h =>
    h.imp fun _ _ _ ⟨ts, cut, derives⟩ => ⟨ts, cut, derives.loosen (by decide)⟩
  cases rule with
  | literal => exact primary (meets_literal begins)
  | name =>
    refine primary (meets_nameOrCall sound accepts ?_)
    cases kind : p.current.kind <;> simp_all [Grammar.standard]
  | operator => exact meets_unaryOperation sound accepts begins
  | grouping =>
    refine primary (meets_grouping sound accepts ?_)
    cases kind : p.current.kind <;> simp_all [Grammar.standard]
  | unknown => exact .unexpectedTaken rfl

/-! ## Continuing an expression -/

/-- What was read so far is an expression of some stratum, and the next token binds no tighter than
the operators of this stratum. -/
def Extends (d : Dialect) (power : BindingPower) (e : Expr) (p q : Parser) : Prop :=
  ∃ l : Stratum, Reads (Sited d l · e) p q ∧ power.above.rank ≤ l.rank ∧ q.pull ≤ l.rank

/-- A form that continues an expression takes at least one token. -/
theorem meets_infixForm (sound : SoundExpr d inner) {power own : BindingPower} {rule : InfixRule}
    {left : Expr} {start : Parser} (accepts : Accepts d start) (step : Onward start p)
    (so : Extends d power left start p)
    (continues : Grammar.standard.infixRule p.current.kind = some (own, rule))
    (tighter : power.level < own.level) :
    Meets (infixForm inner own left rule) p fun e q =>
      Extends d power e start q ∧ q.ahead.length < p.ahead.length := by
  obtain ⟨l, ⟨ts, cut, derives⟩, -, pull⟩ := so
  have accepts' := accepts.onward (step.trans (onward_advance p))
  have own_le : own.level ≤ l.rank := pull_of_infixRule continues ▸ pull
  have more : p.current.kind ≠ .endOfInput := fun ends => by
    rw [ends] at continues
    cases continues
  have sign := pending_of_kind rfl more
  have shorter : p.advance.ahead.length < p.ahead.length := by simp [length_ahead, sign]
  cases rule with
  | operator =>
    obtain ⟨op, stands, m, mem, rank, next⟩ := exists_operators continues
    have left' : Sited d m ts left := derives.loosen (rank ▸ own_le)
    refine .advance ?_
    rw [stands]
    refine (sound own _ accepts').bind fun right q move ⟨⟨us, cut', derives'⟩, pull'⟩ => ?_
    rw [← next] at derives'
    have whole : start.pending = (ts ++ p.current :: us) ++ q.pending := by
      rw [cut, sign, cut']
      simp
    refine (meets_node start _ whole fun _ => .binary mem left' derives').imp ?_
    intro e r move' ⟨pull'', reads⟩
    refine ⟨⟨m, reads, ?_, ?_⟩, ?_⟩
    · exact BindingPower.rank_above_le (rank ▸ tighter)
    · rw [pull'', rank]
      exact pull'
    · exact ((move.trans move').length_le).trans_lt shorter
  | assignment =>
    obtain ⟨rfl, isSign⟩ : own = .assignment ∧ p.current.kind = .assignment := by
      cases kind : p.current.kind <;> simp_all [Grammar.standard]
    refine .advance ((sound .default _ accepts').bind ?_)
    intro value q move ⟨⟨us, cut', derives'⟩, pull'⟩
    split
    next id span x =>
      have target : d.target (ts.map Token.terminal) x := by
        refine accepts _ x (derives.derives.enclosed rfl)
          ⟨[], p.advance.pending.map Token.terminal, ?_⟩
        rw [ahead_eq_map_pending, cut, sign, List.map_append, List.map_cons,
          Token.terminal_of_kind isSign (by decide)]
        simp
      have whole : start.pending = (ts ++ p.current :: us) ++ q.pending := by
        rw [cut, sign, cut']
        simp
      refine (meets_node start _ whole fun _ => .assignment isSign target derives derives').imp ?_
      intro e r move' ⟨pull'', reads⟩
      refine ⟨⟨.assignment, reads, ?_, ?_⟩, ?_⟩
      · exact BindingPower.rank_above_le tighter
      · rw [pull'']
        exact pull'.trans (Nat.zero_le _)
      · exact ((move.trans move').length_le).trans_lt shorter
    next => exact .fail rfl (fun _ => rfl) rfl

theorem meets_extend (sound : SoundExpr d inner) (power : BindingPower) {start : Parser}
    (accepts : Accepts d start) :
    ∀ (fuel : Nat) (left : Expr) (p : Parser), Onward start p → Extends d power left start p →
      p.ahead.length < fuel →
      Meets (extend .standard inner power fuel left) p fun e q => ReadsAbove d power e start q
  | 0, _, _, _, _, less => absurd less (Nat.not_lt_zero _)
  | fuel + 1, left, p, step, so, less => by
    have done : p.pull ≤ power.level → ReadsAbove d power left start p := by
      intro pull
      obtain ⟨l, ⟨ts, cut, derives⟩, above, -⟩ := so
      exact ⟨⟨ts, cut, derives.loosen above⟩, pull⟩
    refine .kind ?_
    split
    next nothing =>
      refine .pure (done ?_)
      rw [pull_of_infixRule_eq_none nothing]
      exact Nat.zero_le _
    next own rule continues =>
      refine .ite (fun le => .pure (done ?_)) fun gt => ?_
      · rw [pull_of_infixRule continues]
        exact le
      · refine (meets_infixForm sound accepts step so continues (Nat.lt_of_not_le gt)).bind ?_
        intro e q move ⟨so', shorter⟩
        exact meets_extend sound power accepts fuel e q (step.trans move) so' (by omega)

theorem soundExpr_expressionFrom (d : Dialect) :
    ∀ fuel : Nat, SoundExpr d (expressionFrom .standard fuel)
  | 0, power, p, _ => .unexpected rfl
  | fuel + 1, power, p, accepts => by
    have ih := soundExpr_expressionFrom d fuel
    refine .kind ?_
    split
    · exact .unexpected rfl
    next rule begins =>
      refine (meets_prefixForm ih accepts begins).bind fun left q move reads => .bounded ?_
      have highest : q.pull ≤ Stratum.unary.rank := by
        unfold Parser.pull
        cases (Grammar.standard.bindingPower q.current.kind) <;> decide
      exact meets_extend ih power accepts _ left q move
        ⟨.unary, reads, power.rank_above_le_unary, highest⟩ (Nat.lt_succ_of_le q.length_ahead_le)

/-- An expression that is read is derived. -/
theorem meets_expression (power : BindingPower) (accepts : Accepts d p) :
    Meets (expression .standard power) p fun e q => ReadsAbove d power e p q :=
  .bounded (soundExpr_expressionFrom d _ power p accepts)

end Parse

end MiniLang
