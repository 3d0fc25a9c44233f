import MiniLang.Proofs.Syntax.Parser.Likeness.Logic

/-!
# What is parsed alike

From states that belong together parsers read trees that look alike, from expressions
(`alike_expression`) over statements (`alikeStmts_statementOrErrorFrom`) to programs
(`Lawful.topLevel_alike`). The walk follows the parser form by form; the loops are by induction on
their rounds. Only programs have checkpoints, so that only they need to know what these do to the
states.
-/

set_option autoImplicit false

namespace MiniLang.Comparison

open Parse

variable {c : Comparison} {inner : ExprParser}

/-! ## Expressions -/

/-- Expressions that look alike. -/
def SameExpr (c : Comparison) (e e' : Expr) : Prop := e.view c.toView = e'.view c.toView

/-- Lists of expressions that look alike. -/
def SameExprs (c : Comparison) (es es' : List Expr) : Prop :=
  Expr.viewAll c.toView es = Expr.viewAll c.toView es'

/-- A parser of expressions reads what looks alike. -/
def AlikeExprs (c : Comparison) (inner : ExprParser) : Prop :=
  ∀ power, c.Alike (inner power) (inner power) c.SameExpr

theorem SameExpr.span {e e' : Expr} (h : c.SameExpr e e') : c.span e.span = c.span e'.span := by
  rw [← Expr.span_view, ← Expr.span_view]
  exact congrArg Expr.span h

theorem SameExpr.cons {e e' : Expr} {es es' : List Expr} (h : c.SameExpr e e')
    (h' : c.SameExprs es es') : c.SameExprs (e :: es) (e' :: es') := by
  rw [SameExprs, Expr.viewAll, Expr.viewAll, h, h']

namespace Lawful

/-- A node is drawn last, when what is below it looks alike. -/
theorem alike_node (law : c.Lawful) {e e' : NodeId → Expr} (h : ∀ id, c.SameExpr (e id) (e' id)) :
    c.Alike (do return e (← freshId)) (do return e' (← freshId)) c.SameExpr :=
  law.alike_freshId.bind fun id _ same => by
    subst same
    exact .pure (h id)

theorem alike_literal (law : c.Lawful) : c.Alike literal literal c.SameExpr := by
  refine law.alike_advance.bind fun token token' same => ?_
  have node : ∀ value : Literal, c.Alike (do return .literal (← freshId) token.span value)
      (do return .literal (← freshId) token'.span value) c.SameExpr := by
    intro value
    refine law.alike_node fun id => ?_
    rw [SameExpr, Expr.view, Expr.view, law.tokenSpan same]
  have fails : ∀ {e e' : SyntaxError}, c.SameError e e' →
      c.Alike (throw e : Parse Literal) (throw e') Eq := .fail
  simp only [← law.kind same]
  split
  next is =>
    rw [← law.integer same is]
    split
    · exact node _
    next none =>
      have error : c.SameError ⟨.integerOverflow token.text, token.span, false⟩
          ⟨.integerOverflow token'.text, token'.span, false⟩ :=
        ⟨rfl, law.overflow same is none, law.tokenSpan same⟩
      exact (fails error).bind fun value _ equal => equal ▸ node value
  · exact node _
  · exact node _
  · exact (fails (law.sameUnexpected same _)).bind fun value _ equal => equal ▸ node value

theorem alike_commaSeparated (law : c.Lawful) (h : c.AlikeExprs inner) :
    ∀ fuel, c.Alike (commaSeparated inner fuel) (commaSeparated inner fuel) c.SameExprs
  | 0 => .pure rfl
  | fuel + 1 => by
    refine (h .default).bind fun e e' first => law.alike_currentKind.bind ?_
    rintro kind _ rfl
    refine .ite (fun _ => law.alike_advance.bind fun _ _ _ => ?_) fun _ => .pure (first.cons rfl)
    exact (law.alike_commaSeparated h fuel).bind fun es es' rest => .pure (first.cons rest)

theorem alike_arguments (law : c.Lawful) (h : c.AlikeExprs inner) :
    c.Alike (arguments inner) (arguments inner) c.SameExprs := by
  refine law.alike_currentKind.bind ?_
  rintro kind _ rfl
  exact .ite (fun _ => .pure rfl) fun _ => law.alike_bounded (law.alike_commaSeparated h)

theorem alike_nameOrCall (law : c.Lawful) (h : c.AlikeExprs inner) :
    c.Alike (nameOrCall inner) (nameOrCall inner) c.SameExpr := by
  refine law.alike_advance.bind fun name name' same => law.alike_currentKind.bind ?_
  rintro kind _ rfl
  have span := law.tokenSpan same
  refine .ite (fun _ => law.alike_advance.bind fun opening opening' opens => ?_) fun _ => ?_
  · refine (law.alike_arguments h).bind fun es es' arguments => ?_
    refine (law.alike_expectClosing _ _ _ opens).bind fun closing closing' closes => ?_
    refine law.alike_node fun id => ?_
    rw [SameExpr, Expr.view, Expr.view, law.join span (law.tokenSpan closes), law.name same, span,
      arguments]
  · refine law.alike_node fun id => ?_
    rw [SameExpr, Expr.view, Expr.view, span, law.name same]

theorem alike_unaryOperation (law : c.Lawful) (h : c.AlikeExprs inner) :
    c.Alike (unaryOperation inner) (unaryOperation inner) c.SameExpr := by
  refine law.alike_advance.bind fun operator operator' same => ?_
  refine (h .unary).bind fun e e' operand => law.alike_node fun id => ?_
  rw [SameExpr, Expr.view, Expr.view, law.join (law.tokenSpan same) operand.span, law.kind same,
    operand]

theorem alike_grouping (law : c.Lawful) (h : c.AlikeExprs inner) :
    c.Alike (grouping inner) (grouping inner) c.SameExpr := by
  refine law.alike_advance.bind fun opening opening' opens => ?_
  refine (h .default).bind fun e e' same => ?_
  exact (law.alike_expectClosing _ _ _ opens).bind fun _ _ _ => .pure same

theorem alike_prefixForm (law : c.Lawful) (h : c.AlikeExprs inner) (rule : PrefixRule) :
    c.Alike (prefixForm inner rule) (prefixForm inner rule) c.SameExpr := by
  cases rule with
  | literal => exact law.alike_literal
  | name => exact law.alike_nameOrCall h
  | operator => exact law.alike_unaryOperation h
  | grouping => exact law.alike_grouping h
  | unknown => exact law.alike_advance.bind fun _ _ same => .fail (law.sameUnexpected same _)

theorem alike_binaryOperation (law : c.Lawful) (h : c.AlikeExprs inner) (power : BindingPower)
    {left left' : Expr} (same : c.SameExpr left left') :
    c.Alike (binaryOperation inner power left) (binaryOperation inner power left') c.SameExpr := by
  refine law.alike_advance.bind fun operator operator' sign => ?_
  simp only [← law.kind sign]
  split
  · exact .fail (law.sameUnexpected sign _)
  · refine (h power).bind fun e e' right => law.alike_node fun id => ?_
    rw [SameExpr, Expr.view, Expr.view, law.join same.span right.span, same, right]

/-- Whether something is a plain name can be seen. -/
theorem alike_assignment (law : c.Lawful) (h : c.AlikeExprs inner) {left left' : Expr}
    (same : c.SameExpr left left') :
    c.Alike (assignment inner left) (assignment inner left') c.SameExpr := by
  refine law.alike_advance.bind fun _ _ _ => (h .default).bind fun e e' value => ?_
  have notName : c.SameError ⟨.invalidAssignmentTarget, left.span, false⟩
      ⟨.invalidAssignmentTarget, left'.span, false⟩ := ⟨rfl, law.target, same.span⟩
  cases left with
  | var id span name =>
    obtain ⟨span', name', rfl, place, target⟩ := Expr.view_eq_var _ same.symm
    refine law.alike_node fun id => ?_
    rw [SameExpr, Expr.view, Expr.view, law.join place.symm value.span, target, place, value]
  | _ =>
    cases left' with
    | var => cases same
    | _ => exact .fail notName

theorem alike_infixForm (law : c.Lawful) (h : c.AlikeExprs inner) (power : BindingPower)
    (rule : InfixRule) {left left' : Expr} (same : c.SameExpr left left') :
    c.Alike (infixForm inner power left rule) (infixForm inner power left' rule) c.SameExpr := by
  cases rule with
  | operator => exact law.alike_binaryOperation h power same
  | assignment => exact law.alike_assignment h same

theorem alike_extend (law : c.Lawful) (g : Grammar) (h : c.AlikeExprs inner)
    (power : BindingPower) :
    ∀ (fuel : Nat) {left left' : Expr}, c.SameExpr left left' →
      c.Alike (extend g inner power fuel left) (extend g inner power fuel left') c.SameExpr
  | 0, _, _, same => .pure same
  | fuel + 1, _, _, same => by
    refine law.alike_currentKind.bind ?_
    rintro kind _ rfl
    split
    · exact .pure same
    next own rule _ =>
      refine .ite (fun _ => .pure same) fun _ => ?_
      exact (law.alike_infixForm h own rule same).bind fun _ _ same =>
        law.alike_extend g h power fuel same

theorem alike_expressionFrom (law : c.Lawful) (g : Grammar) :
    ∀ fuel, c.AlikeExprs (expressionFrom g fuel)
  | 0, power => law.alike_unexpectedHere _
  | fuel + 1, power => by
    have ih := law.alike_expressionFrom g fuel
    refine law.alike_currentKind.bind ?_
    rintro kind _ rfl
    split
    · exact law.alike_unexpectedHere _
    next rule _ =>
      refine (law.alike_prefixForm ih rule).bind fun left left' same => ?_
      exact law.alike_bounded fun rounds => law.alike_extend g ih power rounds same

/-- Expressions are read alike. -/
theorem alike_expression (law : c.Lawful) (g : Grammar) (power : BindingPower) :
    c.Alike (expression g power) (expression g power) c.SameExpr :=
  law.alike_bounded fun fuel => law.alike_expressionFrom g fuel power

end Lawful

/-! ## Statements -/

/-- Statements that look alike. -/
def SameStmt (c : Comparison) (s s' : Stmt) : Prop := s.view c.toView = s'.view c.toView

/-- Blocks that look alike. -/
def SameBlock (c : Comparison) (b b' : Block) : Prop :=
  Stmt.viewBlock c.toView b = Stmt.viewBlock c.toView b'

/-- Lists of statements that look alike. -/
def SameStmts (c : Comparison) (ss ss' : List Stmt) : Prop :=
  Stmt.viewAll c.toView ss = Stmt.viewAll c.toView ss'

/-- Written types that look alike. -/
def SameType (c : Comparison) (type type' : WrittenType) : Prop :=
  type.view c.toView = type'.view c.toView

/-- Lists of parameters that look alike. -/
def SameParams (c : Comparison) (ps ps' : List Param) : Prop :=
  ps.map (Param.view c.toView) = ps'.map (Param.view c.toView)

/-- A parser of statements that always goes on reads what looks alike. -/
def AlikeStmts (c : Comparison) (inner : Parser → Stmt × Parser) : Prop :=
  ∀ p q, c.state p q → c.state (inner p).2 (inner q).2 ∧ c.SameStmt (inner p).1 (inner q).1

theorem SameBlock.span {b b' : Block} (h : c.SameBlock b b') : c.span b.span = c.span b'.span := by
  rw [← Stmt.span_viewBlock, ← Stmt.span_viewBlock]
  exact congrArg Block.span h

theorem SameType.span {type type' : WrittenType} (h : c.SameType type type') :
    c.span type.span = c.span type'.span := congrArg WrittenType.span h

namespace Lawful

theorem alike_typeName (law : c.Lawful) : c.Alike typeName typeName c.SameType := by
  intro p q together
  have here := law.current together
  have type : ∀ name, c.SameType ⟨name, p.current.span⟩ ⟨name, q.current.span⟩ := by
    intro name
    rw [SameType, WrittenType.view, WrittenType.view, law.tokenSpan here]
  simp only [typeName, ← law.kind here]
  cases p.current.kind
  case kwInt | kwBool => exact ⟨law.advance together, type _⟩
  all_goals exact ⟨together, law.sameUnexpected here _⟩

theorem alike_typeAfter (law : c.Lawful) (kind : TokenKind) :
    c.Alike (typeAfter kind) (typeAfter kind) fun declared declared' =>
      declared.map (WrittenType.view c.toView) = declared'.map (WrittenType.view c.toView) := by
  refine law.alike_currentKind.bind ?_
  rintro found _ rfl
  refine .ite (fun _ => law.alike_advance.bind fun _ _ _ => ?_) fun _ => .pure rfl
  exact law.alike_typeName.bind fun type type' same => .pure (congrArg some same)

theorem alike_letStatement (law : c.Lawful) (g : Grammar) :
    c.Alike (letStatement g) (letStatement g) c.SameStmt := by
  refine law.alike_advance.bind fun start start' begins => ?_
  refine (law.alike_expect _ _).bind fun name name' same => ?_
  refine (law.alike_typeAfter _).bind fun declared declared' types => ?_
  refine (law.alike_expect _ _).bind fun _ _ _ => ?_
  refine (law.alike_expression g _).bind fun e e' value => ?_
  refine (law.alike_expect _ _).bind fun stop stop' ends => law.alike_freshId.bind ?_
  rintro id _ rfl
  refine .pure ?_
  rw [SameStmt, Stmt.view, Stmt.view, law.join (law.tokenSpan begins) (law.tokenSpan ends),
    law.name same, law.tokenSpan same, types, value]

theorem alike_condition (law : c.Lawful) (g : Grammar) :
    c.Alike (condition g) (condition g) c.SameExpr := by
  refine (law.alike_expect _ _).bind fun opening opening' opens => ?_
  refine (law.alike_expression g _).bind fun e e' same => ?_
  exact (law.alike_expectClosing _ _ _ opens).bind fun _ _ _ => .pure same

theorem alike_returnStatement (law : c.Lawful) (g : Grammar) :
    c.Alike (returnStatement g) (returnStatement g) c.SameStmt := by
  refine law.alike_advance.bind fun start start' begins => law.alike_currentKind.bind ?_
  rintro kind _ rfl
  have close : ∀ {value value' : Option Expr},
      value.map (Expr.view c.toView) = value'.map (Expr.view c.toView) →
      c.Alike (do
        let stop ← expect .semicolon "`;`"
        return Stmt.ret (start.span.join stop.span) value) (do
        let stop ← expect .semicolon "`;`"
        return Stmt.ret (start'.span.join stop.span) value') c.SameStmt := by
    intro value value' same
    refine (law.alike_expect _ _).bind fun stop stop' ends => .pure ?_
    rw [SameStmt, Stmt.view, Stmt.view, law.join (law.tokenSpan begins) (law.tokenSpan ends), same]
  refine .ite (fun _ => close rfl) fun _ => ?_
  have value : c.Alike (some <$> expression g .default) (some <$> expression g .default)
      fun value value' => value.map (Expr.view c.toView) = value'.map (Expr.view c.toView) :=
    (law.alike_expression g _).map fun e e' same => congrArg some same
  exact value.bind fun value value' same => close same

theorem alike_expressionStatement (law : c.Lawful) (g : Grammar) :
    c.Alike (expressionStatement g) (expressionStatement g) c.SameStmt := by
  refine (law.alike_expression g _).bind fun e e' same => ?_
  refine (law.alike_expect _ _).bind fun stop stop' ends => .pure ?_
  rw [SameStmt, Stmt.view, Stmt.view, law.join same.span (law.tokenSpan ends), same]

theorem alike_commaSeparatedParams (law : c.Lawful) :
    ∀ fuel, c.Alike (commaSeparatedParams fuel) (commaSeparatedParams fuel) c.SameParams
  | 0 => .pure rfl
  | fuel + 1 => by
    refine (law.alike_expect _ _).bind fun name name' same => ?_
    refine (law.alike_expect _ _).bind fun _ _ _ => ?_
    refine law.alike_typeName.bind fun type type' types => law.alike_freshId.bind ?_
    rintro id _ rfl
    have param : Param.view c.toView ⟨id, name.span.join type.span, name.text, type⟩ =
        Param.view c.toView ⟨id, name'.span.join type'.span, name'.text, type'⟩ := by
      rw [Param.view, Param.view, law.join (law.tokenSpan same) types.span, law.name same, types]
    refine law.alike_currentKind.bind ?_
    rintro kind _ rfl
    refine .ite (fun _ => law.alike_advance.bind fun _ _ _ => ?_) fun _ => .pure ?_
    · refine (law.alike_commaSeparatedParams fuel).bind fun ps ps' rest => .pure ?_
      rw [SameParams, List.map_cons, List.map_cons, param, rest]
    · rw [SameParams, List.map_singleton, List.map_singleton, param]

theorem alike_params (law : c.Lawful) : c.Alike params params c.SameParams := by
  refine law.alike_currentKind.bind ?_
  rintro kind _ rfl
  exact .ite (fun _ => .pure rfl) fun _ => law.alike_bounded law.alike_commaSeparatedParams

/-! ## Blocks and the forms around them -/

variable {inner : Parser → Stmt × Parser} {blockOf : Parse Block}

theorem statements_alike (law : c.Lawful) (h : c.AlikeStmts inner) :
    ∀ (fuel : Nat) {p q : Parser}, c.state p q →
      c.state (statements inner fuel p).2 (statements inner fuel q).2 ∧
        c.SameStmts (statements inner fuel p).1 (statements inner fuel q).1
  | 0, p, q, together => ⟨together, rfl⟩
  | fuel + 1, p, q, together => by
    rw [statements, statements, law.atEnd together, law.kind (law.current together)]
    split
    · exact ⟨together, rfl⟩
    · obtain ⟨moved, first⟩ := h p q together
      obtain ⟨moved', rest⟩ := law.statements_alike h fuel moved
      refine ⟨moved', ?_⟩
      rw [SameStmts, Stmt.viewAll, Stmt.viewAll, first, rest]

theorem openBlock (law : c.Lawful) {p q : Parser} (h : c.state p q) :
    c.state { p with blockDepth := p.blockDepth + 1 }
      { q with blockDepth := q.blockDepth + 1 } := by
  rw [law.blockDepth h]
  exact law.setBlockDepth h _

theorem closeBlock (law : c.Lawful) {p q : Parser} (h : c.state p q) :
    c.state { p with blockDepth := p.blockDepth - 1 }
      { q with blockDepth := q.blockDepth - 1 } := by
  rw [law.blockDepth h]
  exact law.setBlockDepth h _

theorem alike_blockBody (law : c.Lawful) (h : c.AlikeStmts inner) :
    c.Alike (blockBody inner) (blockBody inner) c.SameStmts := by
  intro p q together
  obtain ⟨moved, same⟩ := law.statements_alike h (q.remaining + 1) (law.openBlock together)
  unfold blockBody
  rw [law.remaining together]
  exact ⟨law.closeBlock moved, same⟩

theorem alike_block (law : c.Lawful) (h : c.AlikeStmts inner) :
    c.Alike (block inner) (block inner) c.SameBlock := by
  refine (law.alike_expect _ _).bind fun opening opening' opens => law.alike_freshId.bind ?_
  rintro id _ rfl
  refine (law.alike_blockBody h).bind fun body body' same => law.alike_currentKind.bind ?_
  rintro kind _ rfl
  refine .ite (fun _ => law.alike_failUnterminated _ opens) fun _ => ?_
  refine law.alike_advance.bind fun closing closing' closes => .pure ?_
  rw [SameBlock, Stmt.viewBlock, Stmt.viewBlock,
    law.join (law.tokenSpan opens) (law.tokenSpan closes), same]

theorem alike_ifStatement (law : c.Lawful) (g : Grammar) (h : c.Alike blockOf blockOf c.SameBlock) :
    ∀ fuel, c.Alike (ifStatement g blockOf fuel) (ifStatement g blockOf fuel) c.SameStmt
  | 0 => law.alike_unexpectedHere _
  | fuel + 1 => by
    refine law.alike_advance.bind fun start start' begins => ?_
    refine (law.alike_condition g).bind fun test test' tests => h.bind fun yes yes' thens => ?_
    refine law.alike_currentKind.bind ?_
    rintro kind _ rfl
    have upTo : ∀ {s s' : Span}, c.span s = c.span s' →
        c.span (start.span.join s) = c.span (start'.span.join s') :=
      fun same => law.join (law.tokenSpan begins) same
    refine .ite (fun _ => law.alike_advance.bind fun _ _ _ => law.alike_currentKind.bind ?_)
      fun _ => ?_
    · rintro kind _ rfl
      have close : ∀ {no no' : Stmt}, c.SameStmt no no' →
          c.Alike (do return Stmt.ifThenElse (start.span.join (← Parse.previousSpan)) test yes no)
            (do return Stmt.ifThenElse (start'.span.join (← Parse.previousSpan)) test' yes' no')
            c.SameStmt := by
        intro no no' elses
        refine law.alike_previousSpan.bind fun s s' last => .pure ?_
        rw [SameStmt, Stmt.view, Stmt.view, upTo last, tests, thens, elses]
      have elseBlock : c.Alike (Stmt.block <$> blockOf) (Stmt.block <$> blockOf) c.SameStmt :=
        h.map fun b b' same => congrArg Stmt.block same
      refine .ite (fun _ => ?_) fun _ => ?_
      · exact (law.alike_ifStatement g h fuel).bind fun _ _ same => close same
      · exact elseBlock.bind fun _ _ same => close same
    · refine law.alike_previousSpan.bind fun s s' last => .pure ?_
      rw [SameStmt, Stmt.view, Stmt.view, upTo last, tests, thens]

theorem alike_whileStatement (law : c.Lawful) (g : Grammar)
    (h : c.Alike blockOf blockOf c.SameBlock) :
    c.Alike (whileStatement g blockOf) (whileStatement g blockOf) c.SameStmt := by
  refine law.alike_advance.bind fun start start' begins => ?_
  refine (law.alike_condition g).bind fun test test' tests => h.bind fun body body' same => .pure ?_
  rw [SameStmt, Stmt.view, Stmt.view, law.join (law.tokenSpan begins) same.span, tests, same]

theorem alike_functionStatement (law : c.Lawful) (h : c.Alike blockOf blockOf c.SameBlock) :
    c.Alike (functionStatement blockOf) (functionStatement blockOf) c.SameStmt := by
  refine law.alike_advance.bind fun start start' begins => ?_
  refine (law.alike_expect _ _).bind fun name name' same => ?_
  refine (law.alike_expect _ _).bind fun opening opening' opens => ?_
  refine law.alike_params.bind fun ps ps' params => ?_
  refine (law.alike_expectClosing _ _ _ opens).bind fun _ _ _ => ?_
  refine (law.alike_typeAfter _).bind fun result result' results => law.alike_blockDepth.bind ?_
  rintro depth _ rfl
  refine h.bind fun body body' bodies => ?_
  have span := law.join (law.tokenSpan begins) bodies.span
  refine .ite (fun _ => ?_) fun _ => law.alike_freshId.bind ?_
  · refine (law.alike_complain (law.nested (law.name same)) (law.tokenSpan same)).bind ?_
    rintro _ _ -
    refine .pure ?_
    rw [SameStmt, Stmt.view, Stmt.view, span]
  · rintro id _ rfl
    refine .pure ?_
    rw [SameStmt, Stmt.view, Stmt.view, span, bodies, FunctionHeader.view, FunctionHeader.view,
      law.name same, law.tokenSpan same, params, results]

theorem alike_statementForm (law : c.Lawful) (g : Grammar) (h : c.AlikeStmts inner)
    (rule : StatementRule) :
    c.Alike (statementForm g inner rule) (statementForm g inner rule) c.SameStmt := by
  have blocks := law.alike_block h
  cases rule with
  | letVar => exact law.alike_letStatement g
  | ifElse => exact law.alike_bounded (law.alike_ifStatement g blocks)
  | whileLoop => exact law.alike_whileStatement g blocks
  | block =>
    refine blocks.map fun b b' same => ?_
    rw [SameStmt, Stmt.view, Stmt.view, same]
  | function => exact law.alike_functionStatement blocks
  | ret => exact law.alike_returnStatement g

theorem alike_statementWith (law : c.Lawful) (g : Grammar) (h : c.AlikeStmts inner) :
    c.Alike (statementWith g inner) (statementWith g inner) c.SameStmt := by
  refine law.alike_currentKind.bind ?_
  rintro kind _ rfl
  split
  next rule _ => exact law.alike_statementForm g h rule
  next => exact law.alike_expressionStatement g

/-! ## Recovery -/

theorem synchronizeFrom_alike (law : c.Lawful) :
    ∀ (fuel depth : Nat) {p q : Parser}, c.state p q →
      c.state (p.synchronizeFrom fuel depth) (q.synchronizeFrom fuel depth)
  | 0, _, _, _, together => together
  | fuel + 1, depth, p, q, together => by
    have moved := law.advance together
    have next := fun depth => law.synchronizeFrom_alike fuel depth moved
    unfold Parser.synchronizeFrom
    simp only [law.kind (law.current together)]
    split
    · exact together
    · split
      · exact moved
      · exact next depth
    · exact next (depth + 1)
    · split
      · exact together
      · exact moved
      · exact next _
    · exact next depth

theorem recovering_alike (law : c.Lawful) {action : Parse Stmt}
    (h : c.Alike action action c.SameStmt) : c.AlikeStmts (recovering action) := by
  intro p q together
  have result := h p q together
  unfold recovering
  cases outcome : action p <;> cases outcome' : action q <;> rw [outcome, outcome'] at result
  case ok.ok => exact result
  case error.error e p' e' q' =>
    obtain ⟨failed, same⟩ := result
    have reported := law.reportError failed same
    have skipped : c.state (p'.report e).synchronize (q'.report e').synchronize := by
      rw [Parser.synchronize, Parser.synchronize, law.remaining reported]
      exact law.synchronizeFrom_alike _ 0 reported
    have moved : c.state (recover p e p').2 (recover q e' q').2 := by
      simp only [recover, law.consumed skipped, law.consumed together]
      split
      · exact law.advance skipped
      · exact skipped
    refine ⟨moved, ?_⟩
    have start := law.tokenSpan (law.current together)
    exact congrArg Stmt.error (law.join start (law.previousSpan moved))
  all_goals exact result.elim

theorem alikeStmts_statementOrErrorFrom (law : c.Lawful) (g : Grammar) :
    ∀ fuel, c.AlikeStmts (statementOrErrorFrom g fuel)
  | 0, _, _, together =>
    ⟨law.advance together, congrArg Stmt.error (law.tokenSpan (law.current together))⟩
  | fuel + 1, _, _, together =>
    law.recovering_alike
      (law.alike_statementWith g (law.alikeStmts_statementOrErrorFrom g fuel)) _ _ together

/-- Statements are read alike, whether or not they can be read. -/
theorem alikeStmts_statementOrError (law : c.Lawful) (g : Grammar) :
    c.AlikeStmts (statementOrError g) := by
  intro p q together
  unfold statementOrError
  rw [law.remaining together]
  exact law.alikeStmts_statementOrErrorFrom g _ p q together

end Lawful

/-! ## Programs -/

/-- Checkpoints pass together, and keep states together. -/
def PassesTogether (c : Comparison) : Prop :=
  ∀ p q, c.state p q →
    (p.session.checkpoint p.current.span).1 = (q.session.checkpoint q.current.span).1 ∧
      c.state { p with session := (p.session.checkpoint p.current.span).2 }
        { q with session := (q.session.checkpoint q.current.span).2 }

theorem Lawful.topLevel_alike (law : c.Lawful) (passes : PassesTogether c) (g : Grammar) :
    ∀ (fuel : Nat) {p q : Parser}, c.state p q →
      c.state (topLevel g fuel p).2 (topLevel g fuel q).2 ∧
        c.SameStmts (topLevel g fuel p).1 (topLevel g fuel q).1
  | 0, _, _, together => ⟨together, rfl⟩
  | fuel + 1, p, q, together => by
    obtain ⟨passed, asked⟩ := passes p q together
    rw [topLevel, topLevel, law.atEnd together]
    simp only [passed]
    split
    · exact ⟨together, rfl⟩
    · split
      · obtain ⟨moved, first⟩ := law.alikeStmts_statementOrError g _ _ asked
        obtain ⟨moved', rest⟩ := law.topLevel_alike passes g fuel moved
        refine ⟨moved', ?_⟩
        rw [SameStmts, Stmt.viewAll, Stmt.viewAll, first, rest]
      · exact ⟨asked, rfl⟩

/-- Programs are read alike from tokens at which states that belong together begin. -/
theorem Lawful.sameStmts_parse (law : c.Lawful) (passes : PassesTogether c)
    {tokens tokens' : List Delivery} {s s' : Session}
    (h : c.state (Parser.start tokens s) (Parser.start tokens' s')) :
    c.SameStmts (parse tokens s).program.body (parse tokens' s').program.body := by
  have read := law.topLevel_alike passes .standard ((Parser.start tokens s).remaining + 1) h
  change c.SameStmts (topLevel .standard ((Parser.start tokens s).remaining + 1) _).1
    (topLevel .standard ((Parser.start tokens' s').remaining + 1) _).1
  rw [← law.remaining h]
  exact read.2

end MiniLang.Comparison
