import MiniLang.Proofs.Syntax.Parser.Invariant.Logic
import MiniLang.Proofs.Syntax.Spans

/-!
# What parsers of programs keep

The forms of expressions have only places of their tokens and what such places enclose, given that
the expressions inside of them do; so do the loops around the forms, by induction on their rounds
(`keeps_expression`). The same goes for statements, and for the placeholders of those that could not
be read; recovery records the error that it recovers from. So what is to stay true does while a
program is parsed, and the program has only places of the right kind (`keeps_parse`).
-/

set_option autoImplicit false

namespace MiniLang

/-! ## Expressions -/

namespace Parse

variable {I : Invariant} {inner : ExprParser} {left : Expr}

/-- All places of an expression are of the right kind. -/
abbrev ExprWithin (I : Invariant) (e : Expr) : Prop := I.All e.spans

/-- What is kept by a parser of expressions. -/
def KeepsExpr (I : Invariant) (inner : ExprParser) : Prop :=
  ∀ power, Keeps I (inner power) (ExprWithin I)

theorem ExprWithin.span {e : Expr} (h : ExprWithin I e) : I.place e.span := h _ e.span_mem_spans

/-- A node is built when all below it is read. -/
theorem keeps_node {node : NodeId → Expr} (h : ∀ id, ExprWithin I (node id)) :
    Keeps I (do return node (← freshId)) (ExprWithin I) :=
  keeps_freshId.bind fun id _ => .pure (h id)

theorem keeps_literal (law : I.Lawful) : Keeps I literal (ExprWithin I) := by
  refine (keeps_advance law).bind fun token here => ?_
  have node : ∀ value : Literal, Keeps I (do return .literal (← freshId) token.span value)
      (ExprWithin I) := fun value => keeps_node fun _ => .cons here .nil
  split
  · split
    · exact node _
    · exact .bind (.fail ⟨here, nofun⟩) fun _ (h : False) => h.elim
  · exact node _
  · exact node _
  · exact .bind (.fail (.unexpected here _)) fun _ (h : False) => h.elim

theorem keeps_commaSeparated (law : I.Lawful) (h : KeepsExpr I inner) :
    ∀ fuel : Nat, Keeps I (commaSeparated inner fuel) fun es => I.All (Expr.spansAll es)
  | 0 => .pure .nil
  | fuel + 1 => by
    refine (h .default).bind fun first within => .kind fun _ => .ite ?_ ?_
    · refine (keeps_advance law).bind fun _ _ => ?_
      exact (keeps_commaSeparated law h fuel).bind fun rest others =>
        .pure (within.append others)
    · exact .pure (within.append .nil)

theorem keeps_arguments (law : I.Lawful) (h : KeepsExpr I inner) :
    Keeps I (arguments inner) fun es => I.All (Expr.spansAll es) :=
  .kind fun _ => .ite (.pure .nil) (.bounded (keeps_commaSeparated law h))

theorem keeps_nameOrCall (law : I.Lawful) (h : KeepsExpr I inner) :
    Keeps I (nameOrCall inner) (ExprWithin I) := by
  refine (keeps_advance law).bind fun name here => .kind fun _ => .ite ?_ ?_
  · refine (keeps_advance law).bind fun opening there => ?_
    refine (keeps_arguments law h).bind fun values within => ?_
    refine (keeps_expectClosing law _ _ _ there).bind fun closing last => ?_
    exact keeps_node fun _ => .cons (law.join here last) (.cons here within)
  · exact keeps_node fun _ => .cons here .nil

theorem keeps_unaryOperation (law : I.Lawful) (h : KeepsExpr I inner) :
    Keeps I (unaryOperation inner) (ExprWithin I) := by
  refine (keeps_advance law).bind fun operator here => ?_
  refine (h .unary).bind fun operand within => ?_
  exact keeps_node fun _ => .cons (law.join here within.span) within

theorem keeps_grouping (law : I.Lawful) (h : KeepsExpr I inner) :
    Keeps I (grouping inner) (ExprWithin I) := by
  refine (keeps_advance law).bind fun opening here => ?_
  refine (h .default).bind fun e within => ?_
  exact (keeps_expectClosing law _ _ _ here).bind fun _ _ => .pure within

theorem keeps_prefixForm (law : I.Lawful) (h : KeepsExpr I inner) (rule : PrefixRule) :
    Keeps I (prefixForm inner rule) (ExprWithin I) := by
  cases rule with
  | literal => exact keeps_literal law
  | name => exact keeps_nameOrCall law h
  | operator => exact keeps_unaryOperation law h
  | grouping => exact keeps_grouping law h
  | unknown => exact (keeps_advance law).bind fun token here => .fail (.unexpected here _)

theorem keeps_binaryOperation (law : I.Lawful) (h : KeepsExpr I inner) (power : BindingPower)
    (before : ExprWithin I left) :
    Keeps I (binaryOperation inner power left) (ExprWithin I) := by
  refine (keeps_advance law).bind fun operator here => ?_
  split
  · exact .fail (.unexpected here _)
  · refine (h power).bind fun right within => ?_
    exact keeps_node fun _ => .cons (law.join before.span within.span) (before.append within)

theorem keeps_assignment (law : I.Lawful) (h : KeepsExpr I inner) (before : ExprWithin I left) :
    Keeps I (assignment inner left) (ExprWithin I) := by
  refine (keeps_advance law).bind fun _ _ => (h .default).bind fun value within => ?_
  split
  · exact keeps_node fun _ => .cons (law.join before.span within.span) (.cons before.span within)
  · exact .fail ⟨before.span, nofun⟩

theorem keeps_infixForm (law : I.Lawful) (h : KeepsExpr I inner) (power : BindingPower)
    (before : ExprWithin I left) (rule : InfixRule) :
    Keeps I (infixForm inner power left rule) (ExprWithin I) := by
  cases rule with
  | operator => exact keeps_binaryOperation law h power before
  | assignment => exact keeps_assignment law h before

theorem keeps_extend (law : I.Lawful) (g : Grammar) (h : KeepsExpr I inner)
    (power : BindingPower) : ∀ (fuel : Nat) {left : Expr}, ExprWithin I left →
      Keeps I (extend g inner power fuel left) (ExprWithin I)
  | 0, _, before => .pure before
  | fuel + 1, left, before => by
    refine .kind fun kind => ?_
    split
    · exact .pure before
    · refine .ite (.pure before) ?_
      exact (keeps_infixForm law h _ before _).bind fun _ within =>
        keeps_extend law g h power fuel within

theorem keepsExpr_expressionFrom (law : I.Lawful) (g : Grammar) :
    ∀ fuel : Nat, KeepsExpr I (expressionFrom g fuel)
  | 0, _ => .unexpectedHere
  | fuel + 1, power => by
    have ih := keepsExpr_expressionFrom law g fuel
    refine .kind fun kind => ?_
    split
    · exact .unexpectedHere
    · exact (keeps_prefixForm law ih _).bind fun left before =>
        .bounded fun rounds => keeps_extend law g ih power rounds before

theorem keeps_expression (law : I.Lawful) (g : Grammar) : KeepsExpr I (expression g) :=
  fun power => .bounded fun fuel => keepsExpr_expressionFrom law g fuel power

end Parse

/-! ## Statements and programs -/

namespace Parse

variable {I : Invariant}

/-- All places of a statement are of the right kind. -/
abbrev StmtWithin (I : Invariant) (s : Stmt) : Prop := I.All s.spans

/-- All places of a block are of the right kind. -/
abbrev BlockWithin (I : Invariant) (b : Block) : Prop := I.All (Stmt.blockSpans b)

theorem BlockWithin.span {b : Block} (h : BlockWithin I b) : I.place b.span :=
  h _ (Stmt.span_mem_blockSpans b)

/-! ## Forms without blocks -/

theorem keeps_typeName (law : I.Lawful) : Keeps I typeName fun type => I.place type.span := by
  intro p within
  unfold typeName
  cases p.current.kind with
  | kwInt => exact ⟨within.advance law, within.current⟩
  | kwBool => exact ⟨within.advance law, within.current⟩
  | _ => exact ⟨within, .unexpected within.current _⟩

theorem keeps_typeAfter (law : I.Lawful) (kind : TokenKind) :
    Keeps I (typeAfter kind) fun type => I.All (type.map WrittenType.span).toList := by
  refine .kind fun _ => .ite ?_ (.pure .nil)
  refine (keeps_advance law).bind fun _ _ => ?_
  exact (keeps_typeName law).bind fun type here => .pure (.cons here .nil)

theorem keeps_letStatement (law : I.Lawful) (g : Grammar) :
    Keeps I (letStatement g) (StmtWithin I) := by
  refine (keeps_advance law).bind fun start here => ?_
  refine (keeps_expect law _ _).bind fun name there => ?_
  refine (keeps_typeAfter law _).bind fun declared types => ?_
  refine (keeps_expect law _ _).bind fun _ _ => ?_
  refine (keeps_expression law g _).bind fun value within => ?_
  refine (keeps_expect law _ _).bind fun stop last => keeps_freshId.bind fun id _ => .pure ?_
  exact .cons (law.join here last) (.cons there (types.append within))

theorem keeps_condition (law : I.Lawful) (g : Grammar) :
    Keeps I (condition g) (ExprWithin I) := by
  refine (keeps_expect law _ _).bind fun opening here => ?_
  refine (keeps_expression law g _).bind fun e within => ?_
  exact (keeps_expectClosing law _ _ _ here).bind fun _ _ => .pure within

theorem keeps_returnStatement (law : I.Lawful) (g : Grammar) :
    Keeps I (returnStatement g) (StmtWithin I) := by
  refine (keeps_advance law).bind fun start here => .kind fun _ => ?_
  have close : ∀ value : Option Expr, I.All (value.toList.flatMap Expr.spans) →
      Keeps I (do
        let stop ← expect .semicolon "`;`"
        return .ret (start.span.join stop.span) value) (StmtWithin I) := fun value within =>
    (keeps_expect law _ _).bind fun stop last => .pure (.cons (law.join here last) within)
  refine .ite (close none .nil) ?_
  have value : Keeps I (some <$> expression g .default) fun value =>
      I.All (value.toList.flatMap Expr.spans) := by
    refine .map ((keeps_expression law g _).imp fun e within => ?_)
    exact within.append .nil
  exact value.bind close

theorem keeps_expressionStatement (law : I.Lawful) (g : Grammar) :
    Keeps I (expressionStatement g) (StmtWithin I) := by
  refine (keeps_expression law g _).bind fun e within => ?_
  refine (keeps_expect law _ _).bind fun stop last => .pure ?_
  exact .cons (law.join within.span last) within

theorem keeps_commaSeparatedParams (law : I.Lawful) :
    ∀ fuel : Nat, Keeps I (commaSeparatedParams fuel) fun ps => I.All (ps.flatMap Param.spans)
  | 0 => .pure .nil
  | fuel + 1 => by
    refine (keeps_expect law _ _).bind fun name here => ?_
    refine (keeps_expect law _ _).bind fun _ _ => ?_
    refine (keeps_typeName law).bind fun type there => keeps_freshId.bind fun id _ => ?_
    have first : I.All (Param.spans ⟨id, name.span.join type.span, name.text, type⟩) :=
      .cons (law.join here there) (.cons there .nil)
    refine .kind fun _ => .ite ?_ (.pure (first.append .nil))
    refine (keeps_advance law).bind fun _ _ => ?_
    exact (keeps_commaSeparatedParams law fuel).bind fun ps others => .pure (first.append others)

theorem keeps_params (law : I.Lawful) : Keeps I params fun ps => I.All (ps.flatMap Param.spans) :=
  .kind fun _ => .ite (.pure .nil) (.bounded (keeps_commaSeparatedParams law))

/-! ## Blocks and the forms around them -/

/-- What is kept by a parser of statements that always goes on. -/
def KeepsStmt (I : Invariant) (inner : Parser → Stmt × Parser) : Prop :=
  ∀ p : Parser, p.Within I → (inner p).2.Within I ∧ StmtWithin I (inner p).1

variable {inner : Parser → Stmt × Parser} {blockOf : Parse Block}

theorem statements_kept (h : KeepsStmt I inner) :
    ∀ (fuel : Nat) {p : Parser}, p.Within I →
      (statements inner fuel p).2.Within I ∧ I.All (Stmt.spansAll (statements inner fuel p).1)
  | 0, _, within => ⟨within, .nil⟩
  | fuel + 1, p, within => by
    rw [statements]
    split
    · exact ⟨within, .nil⟩
    · obtain ⟨onward, first⟩ := h p within
      obtain ⟨last, rest⟩ := statements_kept h fuel onward
      exact ⟨last, first.append rest⟩

theorem keeps_blockBody (h : KeepsStmt I inner) :
    Keeps I (blockBody inner) fun body => I.All (Stmt.spansAll body) := by
  intro p within
  have deeper : Parser.Within I { p with blockDepth := p.blockDepth + 1 } :=
    ⟨within.current, within.upcoming, within.previous, within.ends, within.session⟩
  obtain ⟨last, body⟩ := statements_kept h (p.remaining + 1) deeper
  exact ⟨⟨last.current, last.upcoming, last.previous, last.ends, last.session⟩, body⟩

theorem keeps_block (law : I.Lawful) (h : KeepsStmt I inner) :
    Keeps I (block inner) (BlockWithin I) := by
  refine (keeps_expect law _ _).bind fun opening here => keeps_freshId.bind fun id _ => ?_
  refine (keeps_blockBody h).bind fun body within => .kind fun _ => ?_
  refine .ite (keeps_failUnterminated _ here) ?_
  exact (keeps_advance law).bind fun closing last => .pure (.cons (law.join here last) within)

theorem keeps_ifStatement (law : I.Lawful) (g : Grammar) (h : Keeps I blockOf (BlockWithin I)) :
    ∀ fuel : Nat, Keeps I (ifStatement g blockOf fuel) (StmtWithin I)
  | 0 => .unexpectedHere
  | fuel + 1 => by
    refine (keeps_advance law).bind fun start here => ?_
    refine (keeps_condition law g).bind fun test within => h.bind fun thenBlock body => ?_
    refine .kind fun _ => .ite ?_ ?_
    · refine (keeps_advance law).bind fun _ _ => .kind fun _ => ?_
      have close : ∀ elseBranch : Stmt, StmtWithin I elseBranch →
          Keeps I (do
            return Stmt.ifThenElse (start.span.join (← previousSpan)) test thenBlock elseBranch)
            (StmtWithin I) := fun elseBranch other =>
        keeps_previousSpan.bind fun last there => .pure
          (.cons (law.join here there) ((within.append body).append other))
      refine .ite ((keeps_ifStatement law g h fuel).bind close) ?_
      have elseBlock : Keeps I (Stmt.block <$> blockOf) (StmtWithin I) := .map h
      exact elseBlock.bind close
    · exact keeps_previousSpan.bind fun last there => .pure
        (.cons (law.join here there) (within.append body))

theorem keeps_whileStatement (law : I.Lawful) (g : Grammar)
    (h : Keeps I blockOf (BlockWithin I)) : Keeps I (whileStatement g blockOf) (StmtWithin I) := by
  refine (keeps_advance law).bind fun start here => ?_
  refine (keeps_condition law g).bind fun test within => h.bind fun body inside => .pure ?_
  exact .cons (law.join here inside.span) (within.append inside)

theorem keeps_functionStatement (law : I.Lawful) (h : Keeps I blockOf (BlockWithin I)) :
    Keeps I (functionStatement blockOf) (StmtWithin I) := by
  refine (keeps_advance law).bind fun start here => ?_
  refine (keeps_expect law _ _).bind fun name there => ?_
  refine (keeps_expect law _ _).bind fun opening opens => ?_
  refine (keeps_params law).bind fun parameters params => ?_
  refine (keeps_expectClosing law _ _ _ opens).bind fun _ _ => ?_
  refine (keeps_typeAfter law _).bind fun returnType types => ?_
  refine keeps_blockDepth.bind fun depth _ => h.bind fun body inside => ?_
  have whole := law.join here inside.span
  have found : Problem.InProgram (.nestedFunction name.text) := nofun
  refine .ite ?_ (keeps_freshId.bind fun id _ => .pure ?_)
  · exact (keeps_complain law found there).bind fun _ _ => .pure (.cons whole .nil)
  · exact .cons whole ((Invariant.All.cons there (params.append types)).append inside)

theorem keeps_statementForm (law : I.Lawful) (g : Grammar) (h : KeepsStmt I inner)
    (rule : StatementRule) : Keeps I (statementForm g inner rule) (StmtWithin I) := by
  have blocks := keeps_block law h
  cases rule with
  | letVar => exact keeps_letStatement law g
  | ifElse => exact .bounded (keeps_ifStatement law g blocks)
  | whileLoop => exact keeps_whileStatement law g blocks
  | block => exact .map blocks
  | function => exact keeps_functionStatement law blocks
  | ret => exact keeps_returnStatement law g

theorem keeps_statementWith (law : I.Lawful) (g : Grammar) (h : KeepsStmt I inner) :
    Keeps I (statementWith g inner) (StmtWithin I) := by
  refine .kind fun kind => ?_
  split
  · exact keeps_statementForm law g h _
  · exact keeps_expressionStatement law g

/-! ## Recovery -/

theorem within_synchronizeFrom (law : I.Lawful) :
    ∀ (fuel depth : Nat) {p : Parser}, p.Within I → (p.synchronizeFrom fuel depth).Within I
  | 0, _, _, within => within
  | fuel + 1, depth, p, within => by
    have next : ∀ depth, (p.advance.synchronizeFrom fuel depth).Within I := fun depth =>
      within_synchronizeFrom law fuel depth (within.advance law)
    unfold Parser.synchronizeFrom
    split
    · exact within
    · split
      · exact within.advance law
      · exact next depth
    · exact next (depth + 1)
    · split
      · exact within
      · exact within.advance law
      · exact next _
    · exact next depth

/-- A placeholder goes from the first token of the statement to the token skipped last. -/
theorem recover_kept (law : I.Lawful) {start failed : Parser} {e : SyntaxError}
    (began : start.Within I) (within : failed.Within I) (fails : I.Fails e) :
    (recover start e failed).2.Within I ∧ StmtWithin I (recover start e failed).1 := by
  have skipped : ((failed.report e).synchronize).Within I :=
    within_synchronizeFrom law _ _ (within.report law fails)
  have moved : (recover start e failed).2.Within I := by
    unfold recover
    simp only
    split
    · exact skipped.advance law
    · exact skipped
  exact ⟨moved, .cons (law.join began.current moved.previous) .nil⟩

theorem recovering_kept (law : I.Lawful) {action : Parse Stmt}
    (h : Keeps I action (StmtWithin I)) : KeepsStmt I (recovering action) := by
  intro p within
  have result := h p within
  unfold recovering
  cases outcome : action p with
  | ok s q =>
    rw [outcome] at result
    exact result
  | error e q =>
    rw [outcome] at result
    exact recover_kept law within result.1 result.2

theorem keepsStmt_statementOrErrorFrom (law : I.Lawful) (g : Grammar) :
    ∀ fuel : Nat, KeepsStmt I (statementOrErrorFrom g fuel)
  | 0, _, within => ⟨within.advance law, .cons within.current .nil⟩
  | fuel + 1, p, within =>
    recovering_kept law (keeps_statementWith law g (keepsStmt_statementOrErrorFrom law g fuel)) p
      within

theorem keepsStmt_statementOrError (law : I.Lawful) (g : Grammar) :
    KeepsStmt I (statementOrError g) := fun p within =>
  keepsStmt_statementOrErrorFrom law g (p.remaining + 1) p within

/-! ## Programs -/

theorem topLevel_kept (law : I.Lawful) (g : Grammar) :
    ∀ (fuel : Nat) {p : Parser}, p.Within I →
      (topLevel g fuel p).2.Within I ∧ I.All (Stmt.spansAll (topLevel g fuel p).1)
  | 0, _, within => ⟨within, .nil⟩
  | fuel + 1, p, within => by
    rw [topLevel]
    split
    · exact ⟨within, .nil⟩
    · have asked := within.withSession (law.checkpoint within.session within.current)
      simp only
      split
      · obtain ⟨onward, first⟩ := keepsStmt_statementOrError law g _ asked
        obtain ⟨last, rest⟩ := topLevel_kept law g fuel onward
        exact ⟨last, first.append rest⟩
      · exact ⟨asked, .nil⟩

end Parse

/-- What is to stay true does while a program is parsed, and all places of the program are of the
right kind. -/
theorem keeps_parse {I : Invariant} (law : I.Lawful) {tokens : List Delivery} {s : Session}
    (delivers : ∀ d ∈ tokens, I.Delivers d) (ends : I.Ends (tokens.map Delivery.token))
    (h : I.session s) :
    I.session (parse tokens s).session ∧ I.All (parse tokens s).program.spans := by
  have begins := Parser.Within.start law h delivers ends
  obtain ⟨last, body⟩ := Parse.topLevel_kept law .standard
    ((Parser.start tokens s).remaining + 1) begins
  exact ⟨last.session, .cons (law.join begins.current last.current) body⟩

end MiniLang
