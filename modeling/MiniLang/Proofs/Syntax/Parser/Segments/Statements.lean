import MiniLang.Proofs.Syntax.Parser.Braces.Statements
import MiniLang.Proofs.Syntax.Parser.Completeness.Statements
import MiniLang.Proofs.Syntax.Parser.Segments.Logic

/-!
# Statements in front of the same semicolon

No expression takes a semicolon, and a statement without braces takes it as its last token or not at
all (`together_expression`, `together_statementWith`). A form that wants a block fails, since no
brace comes before the semicolon. What cannot be read is skipped up to the semicolon and with it. So
of two parsers that see the same up to there, each reads one statement and is behind the semicolon
(`behind_statementOrError`).
-/

set_option autoImplicit false

namespace MiniLang.Parse

open Neighbours

variable {c : Neighbours} {p q : Parser} {n : Nat}

/-! ## Expressions -/

/-- Expressions with other numbers. -/
abbrev Renumbered (n : Nat) (e e' : Expr) : Prop := e = e'.shift n

/-- Parsers of expressions do the same as long as less than `bound` tokens come before the
semicolon. -/
def TogetherExpr (c : Neighbours) (bound : Nat) (inner inner' : ExprParser) : Prop :=
  ∀ n power p q, c.Beside n p q → n < bound →
    c.Together (inner power) (inner' power) (c.Short n (Renumbered c.shift)) p q

variable {inner inner' : ExprParser} {bound : Nat}

theorem together_literal (beside : c.Beside n p q) (ne : q.current.kind ≠ .semicolon) :
    c.Together literal literal (c.Short n (Renumbered c.shift)) p q := by
  refine .advance beside ne fun m fewer beside => ?_
  have node : ∀ value : Literal,
      c.Together (do return Expr.literal (← freshId) q.current.span value)
        (do return Expr.literal (← freshId) q.current.span value)
        (c.Short n (Renumbered c.shift)) p.advance q.advance :=
    fun _ => .node beside (by omega) fun _ => rfl
  have fails : ∀ e : SyntaxError,
      c.Together (throw e : Parse Literal) (throw e) (fun _ _ _ _ => False) p.advance q.advance :=
    fun _ => .fail beside
  split
  next =>
    split
    · exact node _
    · exact (fails _).bind fun _ _ _ _ none => none.elim
  next => exact node _
  next => exact node _
  next => exact (fails _).bind fun _ _ _ _ none => none.elim

theorem together_commaSeparated (h : TogetherExpr c bound inner inner') :
    ∀ (fuel fuel' n : Nat) {p q : Parser}, c.Beside n p q → n < fuel → n < fuel' → n < bound →
      c.Together (commaSeparated inner fuel) (commaSeparated inner' fuel')
        (c.Short n fun es es' => es = Expr.shiftAll c.shift es') p q
  | 0, _, _, _, _, _, less, _, _ => absurd less (Nat.not_lt_zero _)
  | _ + 1, 0, _, _, _, _, _, less, _ => absurd less (Nat.not_lt_zero _)
  | fuel + 1, fuel' + 1, n, p, q, beside, less, less', below => by
    refine (h n .default p q beside below).bind ?_
    rintro e e' p' q' ⟨⟨m, le, beside⟩, same⟩
    refine .kind beside (.ite (fun comma => ?_) fun _ => ?_)
    · refine .advance beside (by rw [comma]; decide) fun m' fewer beside => ?_
      have others := together_commaSeparated h fuel fuel' m' beside (by omega) (by omega) (by omega)
      refine others.bind ?_
      rintro es es' p'' q'' ⟨⟨k, le', beside⟩, same'⟩
      refine .pure ⟨⟨k, by omega, beside⟩, ?_⟩
      rw [same, same']
      rfl
    · exact .pure ⟨⟨m, le, beside⟩, congrArg (fun e => [e]) same⟩

theorem together_arguments (h : TogetherExpr c bound inner inner') (beside : c.Beside n p q)
    (below : n < bound) :
    c.Together (arguments inner) (arguments inner')
      (c.Short n fun es es' => es = Expr.shiftAll c.shift es') p q := by
  refine .kind beside (.ite (fun _ => .pure ⟨⟨n, le_rfl, beside⟩, rfl⟩) fun _ => ?_)
  exact .bounded beside fun fuel fuel' enough enough' =>
    together_commaSeparated h fuel fuel' n beside enough enough' below

theorem together_nameOrCall (h : TogetherExpr c bound inner inner') (beside : c.Beside n p q)
    (ne : q.current.kind ≠ .semicolon) (le : n ≤ bound) :
    c.Together (nameOrCall inner) (nameOrCall inner') (c.Short n (Renumbered c.shift)) p q := by
  refine .advance beside ne fun m fewer beside => .kind beside (.ite (fun opens => ?_) fun _ => ?_)
  · refine .advance beside (by rw [opens]; decide) fun m' fewer' beside => ?_
    refine (together_arguments h beside (by omega)).bind ?_
    rintro es es' p' q' ⟨⟨k, le', beside⟩, same⟩
    refine .expectClosing beside (by decide) fun k' fewer'' _ beside => ?_
    refine .node beside (by omega) fun id => ?_
    rw [Renumbered, Expr.shift, same]
  · exact .node beside (by omega) fun _ => rfl

theorem together_unaryOperation (h : TogetherExpr c bound inner inner') (beside : c.Beside n p q)
    (ne : q.current.kind ≠ .semicolon) (le : n ≤ bound) :
    c.Together (unaryOperation inner) (unaryOperation inner') (c.Short n (Renumbered c.shift))
      p q := by
  refine .advance beside ne fun m fewer beside => ?_
  refine (h m .unary _ _ beside (by omega)).bind ?_
  rintro e e' p' q' ⟨⟨k, le', beside⟩, same⟩
  refine .node beside (by omega) fun id => ?_
  rw [Renumbered, Expr.shift, same, Expr.span_shift]

theorem together_grouping (h : TogetherExpr c bound inner inner') (beside : c.Beside n p q)
    (ne : q.current.kind ≠ .semicolon) (le : n ≤ bound) :
    c.Together (grouping inner) (grouping inner') (c.Short n (Renumbered c.shift)) p q := by
  refine .advance beside ne fun m fewer beside => ?_
  refine (h m .default _ _ beside (by omega)).bind ?_
  rintro e e' p' q' ⟨⟨k, le', beside⟩, same⟩
  refine .expectClosing beside (by decide) fun k' fewer' _ beside => ?_
  exact .pure ⟨⟨k', by omega, beside⟩, same⟩

theorem together_prefixForm (h : TogetherExpr c bound inner inner') (beside : c.Beside n p q)
    (le : n ≤ bound) {rule : PrefixRule}
    (begins : Grammar.standard.prefixRule q.current.kind = some rule) :
    c.Together (prefixForm inner rule) (prefixForm inner' rule) (c.Short n (Renumbered c.shift))
      p q := by
  have ne : q.current.kind ≠ .semicolon := by
    intro is
    rw [is] at begins
    cases begins
  cases rule with
  | literal => exact together_literal beside ne
  | name => exact together_nameOrCall h beside ne le
  | operator => exact together_unaryOperation h beside ne le
  | grouping => exact together_grouping h beside ne le
  | unknown => exact .advance beside ne fun m fewer beside => .fail beside

theorem together_binaryOperation (h : TogetherExpr c bound inner inner')
    (beside : c.Beside (n + 1) p q) (ne : q.current.kind ≠ .semicolon) (less : n < bound)
    (power : BindingPower) (left : Expr) :
    c.Together (binaryOperation inner power (left.shift c.shift))
      (binaryOperation inner' power left) (c.Short n (Renumbered c.shift)) p q := by
  refine .advance beside ne fun m fewer beside => ?_
  cases BinaryOp.ofToken? q.current.kind with
  | none => exact .fail beside
  | some op =>
    refine (h m power _ _ beside (by omega)).bind ?_
    rintro e e' p' q' ⟨⟨k, le', beside⟩, same⟩
    refine .node beside (by omega) fun id => ?_
    rw [Renumbered, Expr.shift, same, Expr.span_shift, Expr.span_shift]

theorem together_assignment (h : TogetherExpr c bound inner inner')
    (beside : c.Beside (n + 1) p q) (ne : q.current.kind ≠ .semicolon) (less : n < bound)
    (left : Expr) :
    c.Together (assignment inner (left.shift c.shift)) (assignment inner' left)
      (c.Short n (Renumbered c.shift)) p q := by
  refine .advance beside ne fun m fewer beside => ?_
  refine (h m .default _ _ beside (by omega)).bind ?_
  rintro e e' p' q' ⟨⟨k, le', beside⟩, same⟩
  cases left with
  | var id span name =>
    refine .node beside (by omega) fun id => ?_
    rw [Renumbered, Expr.shift, same, Expr.span_shift]
  | _ => exact .fail beside

theorem together_extend (h : TogetherExpr c bound inner inner') (power : BindingPower) :
    ∀ (fuel fuel' n : Nat) (left : Expr) {p q : Parser}, c.Beside n p q → n < fuel → n < fuel' →
      n ≤ bound →
      c.Together (extend .standard inner power fuel (left.shift c.shift))
        (extend .standard inner' power fuel' left) (c.Short n (Renumbered c.shift)) p q
  | 0, _, _, _, _, _, _, less, _, _ => absurd less (Nat.not_lt_zero _)
  | _ + 1, 0, _, _, _, _, _, _, less, _ => absurd less (Nat.not_lt_zero _)
  | fuel + 1, fuel' + 1, n, left, p, q, beside, less, less', le => by
    have stays : c.Together (pure (left.shift c.shift)) (pure left)
        (c.Short n (Renumbered c.shift)) p q := .pure ⟨⟨n, le_rfl, beside⟩, rfl⟩
    refine .kind beside ?_
    cases continues : Grammar.standard.infixRule q.current.kind with
    | none => exact stays
    | some found =>
      obtain ⟨own, rule⟩ := found
      refine .ite (fun _ => stays) fun _ => ?_
      have ne : q.current.kind ≠ .semicolon := by
        intro is
        rw [is] at continues
        cases continues
      obtain ⟨m, rfl, -⟩ := beside.advance ne
      have one : c.Together (infixForm inner own (left.shift c.shift) rule)
          (infixForm inner' own left rule) (c.Short m (Renumbered c.shift)) p q := by
        cases rule with
        | operator => exact together_binaryOperation h beside ne le own left
        | assignment => exact together_assignment h beside ne le left
      refine one.bind ?_
      rintro _ e' p' q' ⟨⟨k, le', beside⟩, rfl⟩
      refine (together_extend h power fuel fuel' k e' beside (by omega) (by omega)
        (by omega)).imp ?_
      rintro e e' p' q' ⟨⟨k', le'', beside⟩, same⟩
      exact ⟨⟨k', by omega, beside⟩, same⟩

theorem togetherExpr_expression :
    ∀ bound, TogetherExpr c bound (expression .standard) (expression .standard)
  | 0, _, _, _, _, _, less => absurd less (Nat.not_lt_zero _)
  | bound + 1, n, power, p, q, beside, less => by
    have h := togetherExpr_expression bound
    have le : n ≤ bound := Nat.le_of_lt_succ less
    refine .of_eq (expression_eq power p) (expression_eq power q) (.kind beside ?_)
    cases begins : Grammar.standard.prefixRule q.current.kind with
    | none => exact .unexpectedHere beside
    | some rule =>
      refine (together_prefixForm h beside le begins).bind ?_
      rintro _ left p' q' ⟨⟨m, le', beside⟩, rfl⟩
      refine .bounded beside fun fuel fuel' enough enough' => ?_
      refine (together_extend h power fuel fuel' m left beside enough enough'
        (le'.trans le)).imp ?_
      rintro e e' p' q' ⟨⟨k, le'', beside⟩, same⟩
      exact ⟨⟨k, le''.trans le', beside⟩, same⟩

/-- Expressions are read alike before the semicolon. -/
theorem together_expression (beside : c.Beside n p q) (power : BindingPower) :
    c.Together (expression .standard power) (expression .standard power)
      (c.Short n (Renumbered c.shift)) p q :=
  togetherExpr_expression (n + 1) n power p q beside (Nat.lt_succ_self n)

/-! ## Statements -/

/-- Statements with other numbers. -/
abbrev RenumberedStmt (n : Nat) (s s' : Stmt) : Prop := s = s'.shift n

theorem together_typeName (beside : c.Beside n p q) :
    c.Together typeName typeName (c.Short n Eq) p q := by
  have taken : ∀ name, q.current.kind ≠ .semicolon →
      c.Short n Eq (⟨name, q.current.span⟩ : WrittenType) ⟨name, q.current.span⟩ p.advance
        q.advance := by
    intro name ne
    obtain ⟨m, rfl, beside'⟩ := beside.advance ne
    exact ⟨⟨m, Nat.le_succ m, beside'⟩, rfl⟩
  unfold Neighbours.Together typeName
  rw [beside.current]
  cases kind : q.current.kind
  case kwInt | kwBool => exact taken _ (by rw [kind]; decide)
  all_goals exact ⟨⟨n, beside⟩, rfl⟩

theorem together_typeAfter {kind : TokenKind} (ne : kind ≠ .semicolon) (beside : c.Beside n p q) :
    c.Together (typeAfter kind) (typeAfter kind) (c.Short n Eq) p q := by
  refine .kind beside (.ite (fun is => ?_) fun _ => .pure ⟨⟨n, le_rfl, beside⟩, rfl⟩)
  refine .advance beside (is ▸ ne) fun m fewer beside => (together_typeName beside).bind ?_
  rintro type _ p' q' ⟨⟨k, le, beside⟩, rfl⟩
  exact .pure ⟨⟨k, by omega, beside⟩, rfl⟩

theorem together_letStatement (beside : c.Beside n p q) (ne : q.current.kind ≠ .semicolon) :
    c.Together (letStatement .standard) (letStatement .standard)
      (c.Done (RenumberedStmt c.shift)) p q := by
  refine .advance beside ne fun _ _ beside => .expect beside (by decide) fun _ _ _ beside => ?_
  refine (together_typeAfter (by decide) beside).bind ?_
  rintro declared _ p' q' ⟨⟨_, -, beside⟩, rfl⟩
  refine .expect beside (by decide) fun _ _ _ beside => ?_
  refine (together_expression beside .default).bind ?_
  rintro _ e p' q' ⟨⟨_, -, beside⟩, rfl⟩
  refine .expectSemicolon beside fun behind => .freshId behind.nextId fun id => ?_
  exact .pure ⟨behind.freshId, rfl⟩

theorem together_condition (beside : c.Beside n p q) :
    c.Together (condition .standard) (condition .standard) (c.Short n (Renumbered c.shift))
      p q := by
  refine .expect beside (by decide) fun m fewer _ beside => ?_
  refine (together_expression beside .default).bind ?_
  rintro e e' p' q' ⟨⟨k, le, beside⟩, same⟩
  refine .expectClosing beside (by decide) fun k' fewer' _ beside => ?_
  exact .pure ⟨⟨k', by omega, beside⟩, same⟩

theorem together_returnStatement (beside : c.Beside n p q) (ne : q.current.kind ≠ .semicolon) :
    c.Together (returnStatement .standard) (returnStatement .standard)
      (c.Done (RenumberedStmt c.shift)) p q := by
  refine .advance beside ne fun _ _ beside => .kind beside ?_
  have close : ∀ {n' : Nat} {p' q' : Parser} (start : Token) (value : Option Expr),
      c.Beside n' p' q' → c.Together (do
        let stop ← expect .semicolon "`;`"
        return Stmt.ret (start.span.join stop.span) (value.map (Expr.shift c.shift))) (do
        let stop ← expect .semicolon "`;`"
        return Stmt.ret (start.span.join stop.span) value)
        (c.Done (RenumberedStmt c.shift)) p' q' := fun _ _ beside =>
    .expectSemicolon beside fun behind => .pure ⟨behind, rfl⟩
  refine .ite (fun _ => close _ none beside) fun _ => ?_
  have value : c.Together (some <$> expression .standard .default)
      (some <$> expression .standard .default)
      (c.Short _ fun value value' => value = value'.map (Expr.shift c.shift)) p.advance q.advance :=
    .map ((together_expression beside .default).imp fun _ _ _ _ short =>
      ⟨short.beside, congrArg some short.value⟩)
  refine value.bind ?_
  rintro _ value p' q' ⟨⟨_, -, beside⟩, rfl⟩
  exact close _ value beside

theorem together_expressionStatement (beside : c.Beside n p q) :
    c.Together (expressionStatement .standard) (expressionStatement .standard)
      (c.Done (RenumberedStmt c.shift)) p q := by
  refine (together_expression beside .default).bind ?_
  rintro _ e p' q' ⟨⟨_, -, beside⟩, rfl⟩
  refine .expectSemicolon beside fun behind => .pure ⟨behind, ?_⟩
  rw [RenumberedStmt, Stmt.shift, Expr.span_shift]

/-- No block comes before the semicolon. -/
theorem together_block (beside : c.Beside n p q) {stmt stmt' : Parser → Stmt × Parser} :
    c.Together (block stmt) (block stmt') (fun _ _ _ _ => False) p q :=
  .expect beside (by decide) fun _ _ opens _ => absurd opens beside.kind.1

theorem together_commaSeparatedParams :
    ∀ (fuel fuel' n : Nat) {p q : Parser}, c.Beside n p q → n < fuel → n < fuel' →
      c.Together (commaSeparatedParams fuel) (commaSeparatedParams fuel')
        (c.Short n fun ps ps' => ps = ps'.map (Param.shift c.shift)) p q
  | 0, _, _, _, _, _, less, _ => absurd less (Nat.not_lt_zero _)
  | _ + 1, 0, _, _, _, _, _, less => absurd less (Nat.not_lt_zero _)
  | fuel + 1, fuel' + 1, n, p, q, beside, less, less' => by
    refine .expect beside (by decide) fun m₁ fewer₁ _ beside => ?_
    refine .expect beside (by decide) fun m₂ fewer₂ _ beside => ?_
    refine (together_typeName beside).bind ?_
    rintro type _ p' q' ⟨⟨m₃, le, beside⟩, rfl⟩
    refine .freshId beside.nextId fun id => ?_
    refine .kind beside.freshId (.ite (fun comma => ?_) fun _ => ?_)
    · refine .advance beside.freshId (by rw [comma]; decide) fun m₄ fewer₄ beside => ?_
      have others := together_commaSeparatedParams fuel fuel' m₄ beside (by omega) (by omega)
      refine others.bind ?_
      rintro ps ps' p'' q'' ⟨⟨m₅, le', beside⟩, same⟩
      refine .pure ⟨⟨m₅, by omega, beside⟩, ?_⟩
      rw [same]
      rfl
    · exact .pure ⟨⟨m₃, by omega, beside.freshId⟩, rfl⟩

theorem together_params (beside : c.Beside n p q) :
    c.Together params params (c.Short n fun ps ps' => ps = ps'.map (Param.shift c.shift)) p q := by
  refine .kind beside (.ite (fun _ => .pure ⟨⟨n, le_rfl, beside⟩, rfl⟩) fun _ => ?_)
  exact .bounded beside fun fuel fuel' enough enough' =>
    together_commaSeparatedParams fuel fuel' n beside enough enough'

section Blocks

variable {stmt stmt' : Parser → Stmt × Parser} {post : Stmt → Stmt → Parser → Parser → Prop}

theorem together_ifStatement (beside : c.Beside n p q) (ne : q.current.kind ≠ .semicolon)
    (fuel fuel' : Nat) :
    c.Together (ifStatement .standard (block stmt) (fuel + 1))
      (ifStatement .standard (block stmt') (fuel' + 1)) post p q := by
  refine .advance beside ne fun _ _ beside => (together_condition beside).bind ?_
  rintro e e' p' q' ⟨⟨_, -, beside⟩, -⟩
  exact (together_block beside).bind fun _ _ _ _ none => none.elim

theorem together_whileStatement (beside : c.Beside n p q) (ne : q.current.kind ≠ .semicolon) :
    c.Together (whileStatement .standard (block stmt)) (whileStatement .standard (block stmt'))
      post p q := by
  refine .advance beside ne fun _ _ beside => (together_condition beside).bind ?_
  rintro e e' p' q' ⟨⟨_, -, beside⟩, -⟩
  exact (together_block beside).bind fun _ _ _ _ none => none.elim

theorem together_functionStatement (beside : c.Beside n p q) (ne : q.current.kind ≠ .semicolon) :
    c.Together (functionStatement (block stmt)) (functionStatement (block stmt')) post p q := by
  refine .advance beside ne fun _ _ beside => .expect beside (by decide) fun _ _ _ beside => ?_
  refine .expect beside (by decide) fun _ _ _ beside => (together_params beside).bind ?_
  rintro ps ps' p' q' ⟨⟨_, -, beside⟩, -⟩
  refine .expectClosing beside (by decide) fun _ _ _ beside => ?_
  refine (together_typeAfter (by decide) beside).bind ?_
  rintro type type' p' q' ⟨⟨_, -, beside⟩, -⟩
  refine .openBlocks fun _ _ => ?_
  exact (together_block beside).bind fun _ _ _ _ none => none.elim

/-- A statement ends with the semicolon, or fails before it. -/
theorem together_statementWith (beside : c.Beside n p q) :
    c.Together (statementWith .standard stmt) (statementWith .standard stmt')
      (c.Done (RenumberedStmt c.shift)) p q := by
  refine .kind beside ?_
  cases begins : Grammar.standard.statementRule q.current.kind with
  | none => exact together_expressionStatement beside
  | some rule =>
    have ne : q.current.kind ≠ .semicolon := by
      intro is
      rw [is] at begins
      cases begins
    cases rule with
    | letVar => exact together_letStatement beside ne
    | ifElse =>
      exact together_ifStatement beside ne p.remaining q.remaining
    | whileLoop => exact together_whileStatement beside ne
    | block => exact .map ((together_block beside).imp fun _ _ _ _ none => none.elim)
    | function => exact together_functionStatement beside ne
    | ret => exact together_returnStatement beside ne

end Blocks

/-! ## Recovery -/

/-- Skipping leads behind the semicolon. -/
theorem behind_synchronizeFrom :
    ∀ (fuel fuel' n : Nat) {p q : Parser}, c.Beside n p q → n < fuel → n < fuel' →
      c.Behind (p.synchronizeFrom fuel 0) (q.synchronizeFrom fuel' 0)
  | 0, _, _, _, _, _, less, _ => absurd less (Nat.not_lt_zero _)
  | _ + 1, 0, _, _, _, _, _, less => absurd less (Nat.not_lt_zero _)
  | fuel + 1, fuel' + 1, n, p, q, beside, less, less' => by
    have here : p.current.kind = q.current.kind := congrArg Token.kind beside.current
    by_cases semicolon : q.current.kind = .semicolon
    · simp only [Parser.synchronizeFrom, here, semicolon, ↓reduceIte]
      exact beside.advance_semicolon semicolon
    · obtain ⟨m, rfl, next⟩ := beside.advance semicolon
      have skipped : q.current.kind ∉
          [TokenKind.endOfInput, .semicolon, .openCurly, .closeCurly] := by
        obtain ⟨opens, closes, ends⟩ := beside.kind
        simp [opens, closes, ends, semicolon]
      rw [synchronizeFrom_skip here skipped, synchronizeFrom_skip rfl skipped]
      exact behind_synchronizeFrom fuel fuel' m next (by omega) (by omega)

theorem behind_synchronize (beside : c.Beside n p q) : c.Behind p.synchronize q.synchronize :=
  behind_synchronizeFrom _ _ n beside (beside.remaining.1.trans (Nat.lt_succ_self _))
    (beside.remaining.2.trans (Nat.lt_succ_self _))

/-- What is skipped is never nothing, so that recovery takes no token besides. -/
theorem recover_eq (start : Parser) {e : SyntaxError} {failed : Parser} {run : List Token}
    (took : start.TookRun run failed) (more : failed.atEnd = false)
    (inside : failed.current.kind ≠ .closeCurly) :
    recover start e failed =
      (.error (start.current.span.join (failed.report e).synchronize.previousSpan),
        (failed.report e).synchronize) := by
  have moved := consumed_lt_synchronize (p := failed.report e)
  have same : (failed.report e).current = failed.current ∧
      (failed.report e).consumed = failed.consumed := by
    unfold Parser.report
    split <;> exact ⟨rfl, rfl⟩
  rw [Parser.atEnd, same.1, same.2] at moved
  have less := moved more inside
  have before := took.consumed
  have skips : (failed.report e).synchronize.consumed ≠ start.consumed := by omega
  simp only [recover, if_neg skips]

/-- Of two parsers in front of the same semicolon each reads one statement, or an error placeholder
in its place, and is behind the semicolon then. -/
theorem behind_statementOrError (beside : c.Beside n p q) :
    RenumberedStmt c.shift (statementOrError .standard p).1 (statementOrError .standard q).1 ∧
      c.Behind (statementOrError .standard p).2 (statementOrError .standard q).2 := by
  have together : c.Together
      (statementWith .standard (statementOrErrorFrom .standard p.remaining))
      (statementWith .standard (statementOrErrorFrom .standard q.remaining))
      (c.Done (RenumberedStmt c.shift)) p q := together_statementWith beside
  unfold Neighbours.Together at together
  change RenumberedStmt c.shift (recovering _ p).1 (recovering _ q).1 ∧
    c.Behind (recovering _ p).2 (recovering _ q).2
  unfold recovering
  cases here : statementWith .standard (statementOrErrorFrom .standard p.remaining) p <;>
    cases there : statementWith .standard (statementOrErrorFrom .standard q.remaining) q <;>
    rw [here, there] at together
  case ok.ok => exact ⟨together.value, together.behind⟩
  case error.error e p' e' q' =>
    obtain ⟨⟨m, beside'⟩, rfl⟩ := together
    obtain ⟨run, took⟩ := kept_statementWith_error (Parser.kept_tookRun p) ⟨[], .refl p⟩ here
    obtain ⟨run', took'⟩ := kept_statementWith_error (Parser.kept_tookRun q) ⟨[], .refl q⟩ there
    have inside := beside'.kind.2.1
    have behind := behind_synchronize (beside'.report e)
    change RenumberedStmt c.shift (recover p e p').1 (recover q e q').1 ∧
      c.Behind (recover p e p').2 (recover q e q').2
    rw [recover_eq p took beside'.atEnd.1 (beside'.current ▸ inside),
      recover_eq q took' beside'.atEnd.2 inside, beside.current, behind.previousSpan]
    exact ⟨rfl, behind⟩
  all_goals exact together.elim

end MiniLang.Parse
