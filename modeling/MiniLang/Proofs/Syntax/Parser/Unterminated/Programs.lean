import MiniLang.Proofs.Syntax.Parser.Braces.Statements
import MiniLang.Proofs.Syntax.Parser.Invariant.Statements
import MiniLang.Proofs.Syntax.Recognition
import MiniLang.Proofs.Syntax.Parser.Unterminated.Logic

/-!
# The end of the input is blamed on one open bracket

Where a parser wants the parenthesis that closes another one, it has read an expression, or
parameters, in between, whose parentheses match; so the end of the input there leaves the other one
open. A block that runs into the end of the input has no brace that closes it, since it would have
ended at that one whatever stands before it. Both kinds of brackets are blamed rightly therefore,
and altogether one of them at most (`parse_unterminated`).
-/

set_option autoImplicit false

namespace MiniLang

namespace Parse

open Watch

variable {W : Watch} {p q : Parser} {inner : ExprParser}

/-! ## Expressions -/

/-- Parentheses that match up to the end of the input leave open the one before them. -/
theorem blames_paren (holds : W.Holds p) (opens : p.current.kind = .openParen)
    (even : Even p.advance.ahead) : W.Blames p.current.span := by
  have more : p.atEnd = false := by simp [Parser.atEnd, opens]
  obtain ⟨before, whole⟩ := holds.place
  refine ⟨before, p.current, p.advance.pending, ?_, .inr ⟨opens, ?_⟩, rfl⟩
  · rw [← whole, Parser.pending_of_not_atEnd more]
  · have kinds : p.advance.pending.map Token.kind = p.advance.ahead.map Terminal.kind := by
      rw [Parser.ahead_eq_map_pending, List.map_map]
      exact List.map_congr_left fun t _ => (Token.kind_terminal t).symm
    rw [kinds]
    exact even.closes_eq_false

/-- What was read up to the end of the input has matching parentheses. -/
theorem even_of_reads {forms : List Token → Prop} (reads : Reads forms p q)
    (atEnd : q.atEnd = true) (even : ∀ ts, forms ts → Even (ts.map Token.terminal)) :
    Even p.ahead := by
  obtain ⟨ts, cut, holds⟩ := reads
  rw [Parser.ahead_eq_map_pending, cut, Parser.pending_of_atEnd atEnd, List.append_nil]
  exact even ts holds

/-- What an action says of the value that it gives. -/
theorem Meets.of_ok {α : Type} {action : Parse α} {post : α → Parser → Prop} {a : α}
    (h : Meets action p post) (result : action p = .ok a q) : post a q := by
  unfold Meets at h
  rw [result] at h
  exact h.2

/-- A parser of expressions blames nothing twice and nothing wrongly. -/
def UpholdsExpr (W : Watch) (inner : ExprParser) : Prop := ∀ power p, W.Upholds (inner power) p

theorem upholds_literal : W.Upholds literal p := by
  refine .advance ?_
  have node : ∀ value : Literal,
      W.Upholds (do return Expr.literal (← freshId) p.current.span value) p.advance :=
    fun _ => .node
  split
  · split
    · exact node _
    · exact .bind (.fail rfl) fun value _ _ => .node
  · exact node _
  · exact node _
  · exact .bind (.fail rfl) fun value _ _ => .node

theorem upholds_commaSeparated (h : UpholdsExpr W inner) :
    ∀ (fuel : Nat) (p : Parser), W.Upholds (commaSeparated inner fuel) p
  | 0, _ => .pure
  | fuel + 1, p => by
    refine (h .default p).bind fun _ q _ => .kind (.ite (fun _ => .advance ?_) fun _ => .pure)
    exact (upholds_commaSeparated h fuel _).bind fun _ _ _ => .pure

theorem upholds_arguments (h : UpholdsExpr W inner) : W.Upholds (arguments inner) p :=
  .kind (.ite (fun _ => .pure) fun _ => .bounded (upholds_commaSeparated h _ p))

theorem upholds_nameOrCall (h : UpholdsExpr W inner) (sound : SoundExpr anything inner) :
    W.Upholds (nameOrCall inner) p := by
  intro holds
  refine Upholds.advance (.kind (.ite (fun opens => .advance ?_) fun _ => .node)) holds
  refine (upholds_arguments h).bind fun es q read => .expectClosing (fun atEnd => ?_) .node
  have reads := (meets_arguments sound (accepts_any _)).of_ok read
  exact blames_paren holds.advance opens (even_of_reads reads atEnd fun ts sited =>
    sited.derives.nested nested_even fun _ _ => id)

theorem upholds_grouping (h : UpholdsExpr W inner) (sound : SoundExpr anything inner)
    (opens : p.current.kind = .openParen) : W.Upholds (grouping inner) p := by
  intro holds
  refine Upholds.advance ((h _ _).bind fun e q read => ?_) holds
  refine .expectClosing (fun atEnd => ?_) .pure
  have reads := ((sound _ _ (accepts_any _)).of_ok read).reads
  exact blames_paren holds opens (even_of_reads reads atEnd fun ts sited =>
    sited.derives.nested nested_even fun _ _ => id)

theorem upholds_prefixForm (h : UpholdsExpr W inner) (sound : SoundExpr anything inner)
    {rule : PrefixRule} (begins : Grammar.standard.prefixRule p.current.kind = some rule) :
    W.Upholds (prefixForm inner rule) p := by
  cases rule with
  | literal => exact upholds_literal
  | name => exact upholds_nameOrCall h sound
  | operator => exact .advance ((h _ _).bind fun _ _ _ => .node)
  | grouping =>
    refine upholds_grouping h sound ?_
    cases kind : p.current.kind <;> simp_all [Grammar.standard]
  | unknown => exact .advance (.fail rfl)

theorem upholds_infixForm (h : UpholdsExpr W inner) (power : BindingPower) (left : Expr)
    (rule : InfixRule) : W.Upholds (infixForm inner power left rule) p := by
  cases rule with
  | operator =>
    refine .advance ?_
    split
    · exact .fail rfl
    · exact (h _ _).bind fun _ _ _ => .node
  | assignment =>
    refine .advance ((h _ _).bind fun _ _ _ => ?_)
    split
    · exact .node
    · exact .fail rfl

theorem upholds_extend (h : UpholdsExpr W inner) (power : BindingPower) :
    ∀ (fuel : Nat) (left : Expr) (p : Parser), W.Upholds (extend .standard inner power fuel left) p
  | 0, _, _ => .pure
  | fuel + 1, left, p => by
    refine .kind ?_
    split
    · exact .pure
    next own rule _ =>
      refine .ite (fun _ => .pure) fun _ => ?_
      exact (upholds_infixForm h own left rule).bind fun e q _ => upholds_extend h power fuel e q

theorem upholdsExpr_expressionFrom :
    ∀ fuel : Nat, UpholdsExpr W (expressionFrom .standard fuel)
  | 0, _, _ => .unexpectedHere
  | fuel + 1, power, p => by
    have ih := upholdsExpr_expressionFrom fuel
    refine .kind ?_
    split
    · exact .unexpectedHere
    next rule begins =>
      exact (upholds_prefixForm ih (soundExpr_expressionFrom anything fuel) begins).bind
        fun e q _ => .bounded (upholds_extend ih power _ e q)

theorem upholds_expression (power : BindingPower) (p : Parser) :
    W.Upholds (expression .standard power) p := .bounded (upholdsExpr_expressionFrom _ power p)

/-! ## Statements without blocks -/

theorem upholds_typeName : W.Upholds typeName p := by
  intro holds
  rcases typeName_eq p with ⟨type, -, same⟩ | same
  · rw [same]
    exact holds.advance
  · rw [same]
    exact holds.report rfl

theorem upholds_typeAfter (kind : TokenKind) : W.Upholds (typeAfter kind) p :=
  .kind (.ite (fun _ => .advance (upholds_typeName.bind fun _ _ _ => .pure)) fun _ => .pure)

theorem upholds_letStatement : W.Upholds (letStatement .standard) p := by
  refine .advance (.expect fun _ => (upholds_typeAfter _).bind fun _ _ _ => .expect fun _ => ?_)
  exact (upholds_expression _ _).bind fun _ _ _ => .expect fun _ => .node

theorem upholds_condition : W.Upholds (condition .standard) p := by
  intro holds
  refine Upholds.expect (fun opens => ?_) holds
  refine (upholds_expression _ _).bind fun e q read => .expectClosing (fun atEnd => ?_) .pure
  have reads := ((meets_expression _ (accepts_any _)).of_ok read).reads
  exact blames_paren holds opens (even_of_reads reads atEnd fun ts sited =>
    sited.derives.nested nested_even fun _ _ => id)

theorem upholds_returnStatement : W.Upholds (returnStatement .standard) p := by
  refine .advance (.kind ?_)
  split
  · exact .expect fun _ => .pure
  · exact (Upholds.map (upholds_expression _ _)).bind fun _ _ _ => .expect fun _ => .pure

theorem upholds_expressionStatement : W.Upholds (expressionStatement .standard) p :=
  (upholds_expression _ _).bind fun _ _ _ => .expect fun _ => .pure

theorem upholds_commaSeparatedParams : ∀ (fuel : Nat) (p : Parser),
    W.Upholds (commaSeparatedParams fuel) p
  | 0, _ => .pure
  | fuel + 1, p => by
    refine .expect fun _ => .expect fun _ => upholds_typeName.bind fun _ q _ => ?_
    refine .freshId fun _ => .kind (.ite (fun _ => .advance ?_) fun _ => .pure)
    exact (upholds_commaSeparatedParams fuel _).bind fun _ _ _ => .pure

theorem upholds_params : W.Upholds params p :=
  .kind (.ite (fun _ => .pure) fun _ => .bounded (upholds_commaSeparatedParams _ p))

/-! ## Blocks and the forms around them -/

/-- A parser of statements that always goes on blames nothing twice and nothing wrongly, as long as
so few tokens are pending. -/
def UpholdsStmt (stmt : Parser → Stmt × Parser) (bound : Nat) : Prop :=
  ∀ (W : Watch) (p : Parser), W.size ≤ bound → W.Holds p → W.Holds (stmt p).2

variable {stmt : Parser → Stmt × Parser} {blockOf : Parse Block} {bound : Nat}

theorem statements_upheld (h : UpholdsStmt stmt bound) (few : W.size ≤ bound) :
    ∀ (fuel : Nat) {p : Parser}, W.Holds p → W.Holds (statements stmt fuel p).2
  | 0, _, holds => holds
  | fuel + 1, p, holds => by
    rw [statements]
    split
    · exact holds
    · exact statements_upheld h few fuel (h W p few holds)

theorem upholds_blockBody (h : UpholdsStmt stmt bound) (few : W.size ≤ bound) (holds : W.Holds p) :
    ∃ body q, blockBody stmt p = .ok body q ∧ W.Holds q := by
  have inside := statements_upheld h few (p.remaining + 1) (holds.setBlockDepth (p.blockDepth + 1))
  generalize read : statements stmt (p.remaining + 1) _ = result at inside
  obtain ⟨body, q⟩ := result
  exact ⟨body, _, blockBody_of_statements read, inside.setBlockDepth _⟩

/-- A block that runs into the end of the input is one that nothing closes. -/
theorem upholds_block (h : UpholdsStmt stmt bound) (stays : StaysStmt stmt bound)
    (few : W.size ≤ bound + 1) (p : Parser) : W.Upholds (block stmt) p := by
  by_cases opens : p.current.kind = .openCurly
  · intro holds
    have more : p.atEnd = false := by simp [Parser.atEnd, opens]
    have cut := Parser.pending_of_not_atEnd more
    have size := holds.size
    rw [cut, List.length_cons] at size
    have here : ({ W with size := W.size - 1 } : Watch).Holds
        { p.advance with nextId := p.advance.nextId + 1 } :=
      ⟨holds.advance.place, Nat.lt_sub_of_add_lt size, holds.advance.harmless,
        holds.advance.blamed⟩
    obtain ⟨body, q, read, inside⟩ := upholds_blockBody h (Nat.sub_le_of_le_add few) here
    have start := block_of_blockBody opens read
    rw [start]
    refine Upholds.kind (.ite (fun ends => .failUnterminated ?_) fun _ => .advance .pure)
      (inside.widen (Nat.sub_le ..))
    -- had it been closed, the block would have ended there
    have never : closes .openCurly .closeCurly 0 (p.advance.pending.map Token.kind) = false := by
      by_contra closed
      obtain ⟨body', close, after, whole, is, balanced⟩ :=
        exists_of_closes _ 0 (by simpa using closed)
      obtain ⟨b, r, finished, -⟩ := block_of_open stays opens whole is balanced (by omega)
      rw [start, closeBlock_of_atEnd _ _ _ (beq_iff_eq.2 ends)] at finished
      cases finished
    obtain ⟨before, whole⟩ := holds.place
    exact ⟨before, p.current, p.advance.pending, cut ▸ whole.symm, .inl ⟨opens, never⟩, rfl⟩
  · exact .expect fun is => absurd is opens

variable (blocks : ∀ p, W.Upholds blockOf p)

include blocks in
theorem upholds_ifStatement :
    ∀ (fuel : Nat) {p : Parser}, W.Upholds (ifStatement .standard blockOf fuel) p
  | 0, _ => .unexpectedHere
  | fuel + 1, p => by
    refine .advance (upholds_condition.bind fun test q _ => (blocks q).bind fun _ r _ => ?_)
    refine .kind (.ite (fun _ => .advance (.kind (.ite (fun _ => ?_) fun _ => ?_))) fun _ => ?_)
    · exact (upholds_ifStatement fuel).bind fun _ _ _ => .lastSpan fun _ => .pure
    · exact (Upholds.map (blocks _)).bind fun _ _ _ => .lastSpan fun _ => .pure
    · exact .lastSpan fun _ => .pure

include blocks in
theorem upholds_whileStatement : W.Upholds (whileStatement .standard blockOf) p :=
  .advance (upholds_condition.bind fun _ q _ => (blocks q).bind fun _ _ _ => .pure)

include blocks in
theorem upholds_functionStatement : W.Upholds (functionStatement blockOf) p := by
  refine .advance (.expect fun _ => ?_)
  generalize p.advance.advance = q
  intro holds
  refine Upholds.expect (fun opens => ?_) holds
  refine upholds_params.bind fun parameters r read => .expectClosing (fun atEnd => ?_) ?_
  · have reads := meets_params.of_ok read
    exact blames_paren holds opens (even_of_reads reads atEnd fun ts areParams =>
      areParams ▸ nested_even.paramTerminals parameters)
  · refine (upholds_typeAfter _).bind fun _ r _ => .openBlocks fun _ => ?_
    refine (blocks r).bind fun _ _ _ => .ite (fun _ => ?_) fun _ => .node
    exact (Upholds.complain rfl).bind fun _ _ _ => .pure

theorem upholds_statementWith (h : UpholdsStmt stmt bound) (stays : StaysStmt stmt bound)
    (few : W.size ≤ bound + 1) (p : Parser) : W.Upholds (statementWith .standard stmt) p := by
  have blocks := upholds_block h stays few
  refine .kind ?_
  split
  next rule _ =>
    cases rule with
    | letVar => exact upholds_letStatement
    | ifElse => exact .bounded (upholds_ifStatement blocks _)
    | whileLoop => exact upholds_whileStatement blocks
    | block => exact .map (blocks p)
    | function => exact upholds_functionStatement blocks
    | ret => exact upholds_returnStatement
  next => exact upholds_expressionStatement

/-! ## Recovery -/

theorem holds_synchronizeFrom :
    ∀ (fuel depth : Nat) {p : Parser}, W.Holds p → W.Holds (p.synchronizeFrom fuel depth)
  | 0, _, _, holds => holds
  | fuel + 1, depth, p, holds => by
    unfold Parser.synchronizeFrom
    split
    · exact holds
    · split
      · exact holds.advance
      · exact holds_synchronizeFrom fuel depth holds.advance
    · exact holds_synchronizeFrom fuel _ holds.advance
    · split
      · exact holds
      · exact holds.advance
      · exact holds_synchronizeFrom fuel _ holds.advance
    · exact holds_synchronizeFrom fuel depth holds.advance

theorem holds_recover {start failed : Parser} {e : SyntaxError}
    (holds : W.Holds (failed.report e)) : W.Holds (recover start e failed).2 := by
  have skipped : W.Holds (failed.report e).synchronize := holds_synchronizeFrom _ _ holds
  unfold recover
  simp only
  split
  · exact skipped.advance
  · exact skipped

theorem holds_recovering {action : Parse Stmt} (h : W.Upholds action p) (holds : W.Holds p) :
    W.Holds (recovering action p).2 := by
  have outcome := h holds
  unfold recovering
  cases result : action p with
  | ok s q =>
    rw [result] at outcome
    exact outcome
  | error e q =>
    rw [result] at outcome
    exact holds_recover outcome

/-- Statements in which blocks nest so deep blame nothing twice and nothing wrongly. -/
theorem upholdsStmt_statementOrErrorFrom :
    ∀ fuel : Nat, UpholdsStmt (statementOrErrorFrom .standard (fuel + 1)) fuel
  | 0, _, _, few, holds => absurd (holds.size.trans_le few) (Nat.not_lt_zero _)
  | fuel + 1, _, p, few, holds =>
    holds_recovering (upholds_statementWith (upholdsStmt_statementOrErrorFrom fuel)
      (staysStmt_statementOrErrorFrom (.inl rfl) fuel) few p) holds

theorem holds_statementOrError (holds : W.Holds p) : W.Holds (statementOrError .standard p).2 := by
  have few : p.ahead.length < W.size + 1 := by
    rw [Parser.ahead_eq_map_pending, List.length_map]
    exact holds.size.trans (Nat.lt_succ_self _)
  rw [← (unlimited p).nesting (W.size + 1) few]
  exact upholdsStmt_statementOrErrorFrom W.size W p le_rfl holds

theorem unterminated_checkpoint (s : Session) (span : Span) :
    (s.checkpoint span).2.unterminated = s.unterminated := by
  unfold Session.checkpoint
  split
  · rfl
  · split
    · rfl
    · rfl
    · change Diagnostics.unterminated (s.diagnostics ++ [.of .cancelled span]) = _
      rw [Diagnostics.unterminated_append, Diagnostics.unterminated_of rfl, List.append_nil]
      rfl

theorem holds_topLevel : ∀ (fuel : Nat) {p : Parser}, W.Holds p →
    W.Holds (topLevel .standard fuel p).2
  | 0, _, holds => holds
  | fuel + 1, p, holds => by
    rw [topLevel]
    split
    · exact holds
    · have asked : W.Holds { p with session := (p.session.checkpoint p.current.span).2 } :=
        holds.congr rfl rfl (unterminated_checkpoint p.session p.current.span) rfl
      simp only
      split
      · exact holds_topLevel fuel (holds_statementOrError asked)
      · exact asked

end Parse

/-- A parse of tokens begins with nothing blamed by it. -/
theorem Watch.holds_start (tokens : List Token) (s : Session) :
    (⟨tokens.takeWhile (·.kind ≠ .endOfInput), s.unterminated, tokens.length + 1⟩ : Watch).Holds
      (Parser.start (deliveriesOf tokens) s) := by
  have harmless : ∀ d ∈ deliveriesOf tokens, Diagnostics.unterminated d.diagnostics = [] := by
    intro d mem
    rw [Delivery.diagnostics, (quiet_deliveriesOf tokens d mem).1]
    rfl
  have whole := map_token_deliveriesOf tokens
  cases tokens with
  | nil =>
    refine ⟨⟨[], rfl⟩, Nat.zero_lt_one, List.forall_mem_nil _, [], ?_, le_rfl,
      List.forall_mem_nil _⟩
    exact (List.append_nil _).symm
  | cons t rest =>
    have pending : (Parser.start (deliveriesOf (t :: rest)) s).pending =
        (t :: rest).takeWhile (·.kind ≠ .endOfInput) := congrArg (List.takeWhile _) whole
    refine ⟨⟨[], pending⟩, ?_, fun d mem => harmless d (List.mem_cons_of_mem _ mem), [], ?_, le_rfl,
      List.forall_mem_nil _⟩
    · rw [pending]
      exact Nat.lt_succ_of_le (List.takeWhile_prefix _).length_le
    · rw [List.append_nil]
      exact Holds.unterminated_notify (harmless _ List.mem_cons_self) s

/-- What was recorded before a parse stays in front of what it records. -/
theorem parse_grows (tokens : List Token) (s : Session) :
    ∃ ds, (parse (deliveriesOf tokens) s).session.diagnostics = s.diagnostics ++ ds := by
  have quiet := quiet_deliveriesOf tokens
  obtain ⟨ds, grown⟩ := (keeps_parse (Invariant.lawful_begins s.diagnostics)
    (fun d mem => ⟨trivial, fun problem found => by rw [(quiet d mem).1] at found; cases found⟩)
    (.inr fun _ _ => trivial) (List.prefix_refl _)).1
  exact ⟨ds, grown.symm⟩

/-- Parsing records that the end of the input was found inside something open at most once. What it
blames then is a bracket that no token before the end of the input closes. -/
theorem parse_unterminated (tokens : List Token) (s : Session) :
    ∃ ds, (parse (deliveriesOf tokens) s).session.diagnostics = s.diagnostics ++ ds ∧
      (Diagnostics.unterminated ds = [] ∨
        ∃ before opening after,
          tokens.takeWhile (·.kind ≠ .endOfInput) = before ++ opening :: after ∧
          opening.Unmatched after ∧ Diagnostics.unterminated ds = [opening.span]) := by
  obtain ⟨ds, grown⟩ := parse_grows tokens s
  refine ⟨ds, grown, ?_⟩
  have last := Parse.holds_topLevel
    ((Parser.start (deliveriesOf tokens) s).remaining + 1) (Watch.holds_start tokens s)
  obtain ⟨spans, blamed, few, all⟩ := last.blamed
  have recorded : Diagnostics.unterminated ds = spans := by
    have whole : (parse (deliveriesOf tokens) s).session.unterminated =
        s.unterminated ++ spans := blamed
    rw [Session.unterminated, grown, Diagnostics.unterminated_append] at whole
    exact List.append_cancel_left whole
  rw [recorded]
  have one : spans.length ≤ 1 := few.trans (by split <;> decide)
  cases spans with
  | nil => exact .inl rfl
  | cons span others =>
    have last : others.length ≤ 0 := Nat.le_of_succ_le_succ one
    obtain rfl : others = [] := List.length_eq_zero_iff.1 (Nat.le_zero.1 last)
    obtain ⟨before, opening, after, place, unmatched, rfl⟩ := all span List.mem_cons_self
    exact .inr ⟨before, opening, after, place, unmatched, rfl⟩

end MiniLang
