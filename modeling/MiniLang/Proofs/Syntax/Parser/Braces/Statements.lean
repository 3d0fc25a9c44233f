import MiniLang.Proofs.Syntax.Parser.Braces.Logic
import MiniLang.Proofs.Syntax.Parser.Progress

/-!
# Recovery never crosses braces

No form of an expression begins or goes on with a brace, and the forms of statements take braces in
blocks only. So every action stays between the braces that it began between, by induction over
blocks in blocks: inside of a block this is known of its statements, which therefore end at the
brace that matches the block's own (`block_of_open`). What fails on the way is skipped without
leaving the braces either. Whatever stands between two braces that match, a block takes just that
(`block_matching`).
-/

set_option autoImplicit false

namespace MiniLang

/-- Braces belong to blocks and to nothing else. -/
structure Grammar.Braceless (g : Grammar) : Prop where
  begins : ∀ kind rule, g.prefixRule kind = some rule → kind ≠ .openCurly ∧ kind ≠ .closeCurly
  goesOn : ∀ kind rule, g.infixRule kind = some rule → kind ≠ .openCurly ∧ kind ≠ .closeCurly
  statement : ∀ kind rule, g.statementRule kind = some rule → rule ≠ .block →
    kind ≠ .openCurly ∧ kind ≠ .closeCurly

theorem Grammar.braceless_standard : Grammar.standard.Braceless where
  begins := fun kind rule found => by
    constructor <;> rintro rfl <;> cases found
  goesOn := fun kind rule found => by
    constructor <;> rintro rfl <;> cases found
  statement := fun kind rule found other => by
    constructor <;> rintro rfl <;> cases found
    exact other rfl

theorem Grammar.braceless_empty : Grammar.empty.Braceless where
  begins := fun _ _ found => by cases found
  goesOn := fun _ _ found => by cases found
  statement := fun _ _ found => by cases found

namespace Parse

open Enclosure

variable {E : Enclosure} {g : Grammar} {p : Parser} {inner : ExprParser}

/-! ## Expressions -/

/-- A parser of expressions leaves every parser between the braces. -/
def StaysExpr (E : Enclosure) (inner : ExprParser) : Prop := ∀ power p, E.Stays (inner power) p

theorem stays_literal (plain : p.current.Plain) : E.Stays literal p := by
  refine .advance plain ?_
  have node : ∀ value : Literal,
      E.Stays (do return Expr.literal (← freshId) p.current.span value) p.advance := fun _ => .node
  split
  · split
    · exact node _
    · exact .bind .fail fun value _ _ => .node
  · exact node _
  · exact node _
  · exact .bind .fail fun value _ _ => .node

theorem stays_commaSeparated (h : StaysExpr E inner) :
    ∀ (fuel : Nat) (p : Parser), E.Stays (commaSeparated inner fuel) p
  | 0, _ => .pure
  | fuel + 1, p => by
    refine (h .default p).bind fun _ q _ => .kind (.ite (fun comma => ?_) fun _ => .pure)
    refine .advance (by rw [Token.Plain, comma]; decide) ?_
    exact (stays_commaSeparated h fuel _).bind fun _ _ _ => .pure

theorem stays_arguments (h : StaysExpr E inner) : E.Stays (arguments inner) p :=
  .kind (.ite (fun _ => .pure) fun _ => .bounded (stays_commaSeparated h _ p))

theorem stays_nameOrCall (h : StaysExpr E inner) (plain : p.current.Plain) :
    E.Stays (nameOrCall inner) p := by
  refine .advance plain (.kind (.ite (fun opens => ?_) fun _ => .node))
  refine .advance (by rw [Token.Plain, opens]; decide) ?_
  exact (stays_arguments h).bind fun _ _ _ => .expectClosing (by decide) .node

theorem stays_prefixForm (h : StaysExpr E inner) (plain : p.current.Plain) (rule : PrefixRule) :
    E.Stays (prefixForm inner rule) p := by
  cases rule with
  | literal => exact stays_literal plain
  | name => exact stays_nameOrCall h plain
  | operator => exact .advance plain ((h _ _).bind fun _ _ _ => .node)
  | grouping =>
    exact .advance plain ((h _ _).bind fun _ _ _ => .expectClosing (by decide) .pure)
  | unknown => exact .advance plain .fail

theorem stays_infixForm (h : StaysExpr E inner) (plain : p.current.Plain) (power : BindingPower)
    (left : Expr) (rule : InfixRule) : E.Stays (infixForm inner power left rule) p := by
  cases rule with
  | operator =>
    refine .advance plain ?_
    split
    · exact .fail
    · exact (h _ _).bind fun _ _ _ => .node
  | assignment =>
    refine .advance plain ((h _ _).bind fun _ _ _ => ?_)
    split
    · exact .node
    · exact .fail

theorem stays_extend (law : g.Braceless) (h : StaysExpr E inner) (power : BindingPower) :
    ∀ (fuel : Nat) (left : Expr) (p : Parser), E.Stays (extend g inner power fuel left) p
  | 0, _, _ => .pure
  | fuel + 1, left, p => by
    refine .kind ?_
    split
    · exact .pure
    next own rule found =>
      refine .ite (fun _ => .pure) fun _ => ?_
      exact (stays_infixForm h (law.goesOn _ _ found) own left rule).bind fun e q _ =>
        stays_extend law h power fuel e q

theorem staysExpr_expressionFrom (law : g.Braceless) :
    ∀ fuel : Nat, StaysExpr E (expressionFrom g fuel)
  | 0, _, _ => .unexpectedHere
  | fuel + 1, power, p => by
    have ih := staysExpr_expressionFrom law fuel
    refine .kind ?_
    split
    · exact .unexpectedHere
    next rule found =>
      exact (stays_prefixForm ih (law.begins _ _ found) rule).bind fun e q _ =>
        .bounded (stays_extend law ih power _ e q)

theorem stays_expression (law : g.Braceless) (power : BindingPower) (p : Parser) :
    E.Stays (expression g power) p :=
  .bounded (staysExpr_expressionFrom law _ power p)

/-! ## Statements without blocks -/

theorem stays_typeName : E.Stays typeName p := by
  intro holds
  rcases typeName_eq p with ⟨type, kind, same⟩ | same
  · rw [same]
    exact holds.advance_plain (by rw [Token.Plain, kind]; cases type.name <;> decide)
  · rw [same]
    exact holds

theorem stays_typeAfter {kind : TokenKind} (plain : kind ≠ .openCurly ∧ kind ≠ .closeCurly) :
    E.Stays (typeAfter kind) p := by
  refine .kind (.ite (fun is => ?_) fun _ => .pure)
  exact .advance (by rwa [Token.Plain, is]) (stays_typeName.bind fun _ _ _ => .pure)

theorem stays_letStatement (law : g.Braceless) (plain : p.current.Plain) :
    E.Stays (letStatement g) p := by
  refine .advance plain (.expect (by decide) ((stays_typeAfter (by decide)).bind fun _ _ _ => ?_))
  refine .expect (by decide) ((stays_expression law _ _).bind fun _ _ _ => ?_)
  exact .expect (by decide) .node

theorem stays_condition (law : g.Braceless) : E.Stays (condition g) p :=
  .expect (by decide) ((stays_expression law _ _).bind fun _ _ _ =>
    .expectClosing (by decide) .pure)

theorem stays_returnStatement (law : g.Braceless) (plain : p.current.Plain) :
    E.Stays (returnStatement g) p := by
  refine .advance plain (.kind ?_)
  split
  · exact .expect (by decide) .pure
  · exact (Stays.map (stays_expression law _ _)).bind fun _ _ _ => .expect (by decide) .pure

theorem stays_expressionStatement (law : g.Braceless) : E.Stays (expressionStatement g) p :=
  (stays_expression law _ _).bind fun _ _ _ => .expect (by decide) .pure

theorem stays_commaSeparatedParams : ∀ (fuel : Nat) (p : Parser),
    E.Stays (commaSeparatedParams fuel) p
  | 0, _ => .pure
  | fuel + 1, p => by
    refine .expect (by decide) (.expect (by decide) (stays_typeName.bind fun _ q _ => ?_))
    refine .freshId fun _ => .kind (.ite (fun comma => ?_) fun _ => .pure)
    refine .advance (by rw [Token.Plain, comma]; decide) ?_
    exact (stays_commaSeparatedParams fuel _).bind fun _ _ _ => .pure

theorem stays_params : E.Stays params p :=
  .kind (.ite (fun _ => .pure) fun _ => .bounded (stays_commaSeparatedParams _ p))

/-! ## Blocks and the forms around them -/

/-- A parser of statements that always goes on leaves parsers between the braces and takes
something, as long as so few tokens are pending. -/
def StaysStmt (inner : Parser → Stmt × Parser) (bound : Nat) : Prop :=
  ∀ (E : Enclosure) (p : Parser), E.size ≤ bound → E.Holds p → p.current.kind ≠ .closeCurly →
    E.Holds (inner p).2 ∧ (inner p).2.pending.length < p.pending.length

variable {stmt : Parser → Stmt × Parser} {blockOf : Parse Block} {bound : Nat}

/-- The statements of a block are read up to the brace that closes it. -/
theorem statements_holds (h : StaysStmt stmt bound) (few : E.size ≤ bound) :
    ∀ (fuel : Nat) {p : Parser}, E.Holds p → p.pending.length < fuel →
      E.Holds (statements stmt fuel p).2 ∧ (statements stmt fuel p).2.current.kind = .closeCurly
  | 0, _, _, less => absurd less (Nat.not_lt_zero _)
  | fuel + 1, p, holds, less => by
    rw [statements]
    split
    next stop =>
      refine ⟨holds, stop.resolve_right ?_⟩
      simp [holds.atEnd]
    next more =>
      obtain ⟨next, fewer⟩ := h E p few holds fun closes => more (.inl closes)
      exact statements_holds h few fuel next (by omega)

theorem blockBody_of_statements {body : List Stmt} {q : Parser}
    (read : statements stmt (p.remaining + 1) { p with blockDepth := p.blockDepth + 1 } =
      (body, q)) : blockBody stmt p = .ok body { q with blockDepth := q.blockDepth - 1 } := by
  simp only [blockBody, read]

/-- A block behind its statements. -/
def closeBlock (opening : Token) (id : NodeId) (body : List Stmt) : Parse Block := do
  if (← currentKind) = .endOfInput then
    failUnterminated "block" opening
  else
    let closing ← advance
    return .mk id (opening.span.join closing.span) body

theorem closeBlock_of_atEnd (opening : Token) (id : NodeId) (body : List Stmt)
    (atEnd : p.atEnd = true) :
    closeBlock opening id body p = failUnterminated "block" opening p := by
  unfold closeBlock
  rw [bind_eq_of_ok (rfl : currentKind p = .ok p.current.kind p), if_pos (beq_iff_eq.1 atEnd)]

theorem closeBlock_of_not_atEnd (opening : Token) (id : NodeId) (body : List Stmt)
    (more : p.atEnd = false) :
    closeBlock opening id body p =
      .ok (.mk id (opening.span.join p.current.span) body) p.advance := by
  unfold closeBlock
  rw [bind_eq_of_ok (rfl : currentKind p = .ok p.current.kind p),
    if_neg (beq_eq_false_iff_ne.1 more)]
  rfl

/-- What a block is once its statements are read. -/
theorem block_of_blockBody {body : List Stmt} {q : Parser} (opens : p.current.kind = .openCurly)
    (read : blockBody stmt { p.advance with nextId := p.advance.nextId + 1 } = .ok body q) :
    block stmt p = closeBlock p.current p.advance.nextId body q := by
  have opening : expect .openCurly "`\x7b`" p = .ok p.current p.advance := if_pos opens
  have numbered : freshId p.advance = .ok p.advance.nextId _ := rfl
  unfold block closeBlock
  rw [bind_eq_of_ok opening, bind_eq_of_ok numbered, bind_eq_of_ok read]

/-- What a block is when its statements end at a closing brace. -/
theorem block_eq {body : List Stmt} {q : Parser} (opens : p.current.kind = .openCurly)
    (read : statements stmt (p.advance.remaining + 1)
      { p.advance with
        nextId := p.advance.nextId + 1
        blockDepth := p.advance.blockDepth + 1 } = (body, q))
    (closes : q.current.kind = .closeCurly) :
    block stmt p = .ok (.mk p.advance.nextId (p.current.span.join q.current.span) body)
      ({ q with blockDepth := q.blockDepth - 1 } : Parser).advance := by
  have inside : blockBody stmt { p.advance with nextId := p.advance.nextId + 1 } =
      .ok body { q with blockDepth := q.blockDepth - 1 } := blockBody_of_statements read
  rw [block_of_blockBody opens inside, closeBlock_of_not_atEnd]
  rw [Parser.atEnd, closes]
  decide

/-- A block ends at the brace that matches its own, whatever stands in between. -/
theorem block_of_open (h : StaysStmt stmt bound) (opens : p.current.kind = .openCurly)
    {inside after : List Token} {close : Token}
    (whole : p.advance.pending = inside ++ close :: after) (closes : close.kind = .closeCurly)
    (balanced : Token.Balanced inside) (few : p.advance.pending.length ≤ bound) :
    ∃ b q, block stmt p = .ok b q ∧ q.pending = after ∧ q.blockDepth = p.blockDepth := by
  let E : Enclosure := ⟨close, closes, after, p.blockDepth + 1, bound⟩
  have holds : E.Holds { p.advance with
      nextId := p.advance.nextId + 1
      blockDepth := p.advance.blockDepth + 1 } :=
    ⟨⟨inside, whole, balanced⟩, few, congrArg (· + 1) (HoldsAt.blockDepth_advance p)⟩
  obtain ⟨last, closing⟩ := statements_holds h le_rfl (p.advance.remaining + 1) holds
    (Nat.lt_succ_of_le (length_pending_le p.advance))
  generalize read : statements stmt (p.advance.remaining + 1) _ = result at last closing
  obtain ⟨body, q⟩ := result
  have left : ({ q with blockDepth := q.blockDepth - 1 } : Parser).pending = close :: after :=
    last.pending_of_close closing
  refine ⟨_, _, block_eq opens read closing, (Parser.of_pending_eq_cons left).2.2, ?_⟩
  rw [HoldsAt.blockDepth_advance]
  exact Nat.sub_eq_of_eq_add last.blockDepth

/-- A block between the braces has the one that closes it there too. -/
theorem stays_block (h : StaysStmt stmt bound) (few : E.size ≤ bound + 1) (p : Parser) :
    E.Stays (block stmt) p := by
  by_cases opens : p.current.kind = .openCurly
  · intro holds
    have cut := Parser.pending_of_not_atEnd holds.atEnd
    obtain ⟨inside, whole, balanced⟩ := holds.inside
    cases inside with
    | nil =>
      obtain ⟨same, -⟩ := List.cons.inj (cut.symm.trans whole)
      have closes := E.closes
      rw [← same, opens] at closes
      cases closes
    | cons t inside =>
      obtain ⟨rfl, left⟩ := List.cons.inj (cut.symm.trans whole)
      obtain ⟨inner, close, after, rfl, closes, balanced, outside⟩ :=
        Token.Balanced.of_open opens balanced
      have size := holds.size
      have fewer := congrArg List.length cut
      rw [List.length_cons] at fewer
      have left : p.advance.pending = inner ++ close :: (after ++ E.closing :: E.after) :=
        left.trans (List.append_assoc ..)
      obtain ⟨b, q, read, pending, depth⟩ := block_of_open h opens left closes balanced (by omega)
      rw [read]
      refine ⟨⟨after, pending, outside⟩, ?_, depth.trans holds.blockDepth⟩
      rw [pending]
      refine le_trans ?_ size
      simp only [cut, left, List.length_append, List.length_cons]
      omega
  · have stops : expect .openCurly "`\x7b`" p = .error _ p := if_neg opens
    intro holds
    rw [block, bind_eq_of_error stops]
    exact holds

variable (law : g.Braceless) (blocks : ∀ p, E.Stays blockOf p)

include law blocks in
theorem stays_ifStatement : ∀ (fuel : Nat) {p : Parser}, p.current.Plain →
    E.Stays (ifStatement g blockOf fuel) p
  | 0, _, _ => .unexpectedHere
  | fuel + 1, p, plain => by
    refine .advance plain ((stays_condition law).bind fun test q _ => ?_)
    refine (blocks q).bind fun thenBlock r _ => .kind (.ite (fun other => ?_) fun _ => ?_)
    · refine .advance (by rw [Token.Plain, other]; decide) (.kind ?_)
      refine .ite (fun again => ?_) fun _ => ?_
      · refine Stays.bind (stays_ifStatement fuel (by rw [Token.Plain, again]; decide)) ?_
        exact fun _ _ _ => .lastSpan fun _ => .pure
      · exact (Stays.map (blocks _)).bind fun _ _ _ => .lastSpan fun _ => .pure
    · exact .lastSpan fun _ => .pure

include law blocks in
theorem stays_whileStatement (plain : p.current.Plain) : E.Stays (whileStatement g blockOf) p :=
  .advance plain ((stays_condition law).bind fun _ q _ => (blocks q).bind fun _ _ _ => .pure)

include blocks in
theorem stays_functionStatement (plain : p.current.Plain) :
    E.Stays (functionStatement blockOf) p := by
  refine .advance plain (.expect (by decide) (.expect (by decide) ?_))
  refine stays_params.bind fun parameters q _ => .expectClosing (by decide) ?_
  refine (stays_typeAfter (by decide)).bind fun returnType q _ => .openBlocks fun depth => ?_
  refine (blocks q).bind fun body r _ => .ite (fun _ => ?_) fun _ => .node
  exact Stays.complain.bind fun _ _ _ => .pure

include law in
theorem stays_statementWith (h : StaysStmt stmt bound) (few : E.size ≤ bound + 1) (p : Parser) :
    E.Stays (statementWith g stmt) p := by
  have blocks := stays_block h few
  refine .kind ?_
  split
  next rule found =>
    have plain := law.statement _ _ found
    cases rule with
    | letVar => exact stays_letStatement law (plain (by decide))
    | ifElse => exact .bounded (stays_ifStatement law blocks _ (plain (by decide)))
    | whileLoop => exact stays_whileStatement law blocks (plain (by decide))
    | block => exact .map (blocks p)
    | function => exact stays_functionStatement blocks (plain (by decide))
    | ret => exact stays_returnStatement law (plain (by decide))
  next => exact stays_expressionStatement law

/-! ## Recovery -/

/-- Skipping moves on, unless it begins at a brace that closes the block or at the end. -/
theorem consumed_lt_synchronize (more : p.atEnd = false) (inside : p.current.kind ≠ .closeCurly) :
    p.consumed < p.synchronize.consumed := by
  have step := (Parser.TookRun.advance more).consumed
  have next : ∀ fuel depth, p.consumed < (p.advance.synchronizeFrom fuel depth).consumed := by
    intro fuel depth
    obtain ⟨run, took⟩ := kept_synchronizeFrom (Parser.kept_tookRun p.advance) ⟨[], .refl _⟩
      fuel depth
    rw [took.consumed, step, List.length_singleton]
    omega
  unfold Parser.synchronize Parser.synchronizeFrom
  split
  next ends =>
    rw [Parser.atEnd, ends] at more
    cases more
  next =>
    rw [if_pos rfl, step]
    exact Nat.lt_succ_self _
  next => exact next _ _
  next closes => exact absurd closes inside
  next => exact next _ _

/-- What fails between the braces is skipped without leaving them: some of it is, so that no token
has to be taken besides. -/
theorem recover_holds {e : SyntaxError} {failed : Parser} {run : List Token} (start : E.Holds p)
    (inside : p.current.kind ≠ .closeCurly) (holds : E.Holds failed)
    (took : p.TookRun run failed) : E.Holds (recover p e failed).2 := by
  have reported : E.Holds (failed.report e) :=
    holds.congr (Parser.pending_report failed e) (by unfold Parser.report; split <;> rfl)
  have took := took.report e
  have onward : p.consumed < (failed.report e).synchronize.consumed := by
    cases run with
    | nil =>
      have here := (Parser.of_pending_eq_cons
        (took.pending.symm.trans (Parser.pending_of_not_atEnd start.atEnd))).2.1
      have moved := consumed_lt_synchronize reported.atEnd (here ▸ inside)
      rwa [took.consumed] at moved
    | cons t run =>
      obtain ⟨more, skips⟩ := kept_synchronizeFrom (Parser.kept_tookRun (failed.report e))
        ⟨[], .refl _⟩ ((failed.report e).remaining + 1) 0
      have count := skips.consumed
      rw [took.consumed, List.length_cons] at count
      change p.consumed < ((failed.report e).synchronizeFrom _ 0).consumed
      omega
  unfold recover
  simp only
  rw [if_neg onward.ne']
  exact synchronize_holds reported

/-- Statements that may contain blocks in so many blocks leave parsers between the braces. -/
theorem staysStmt_statementOrErrorFrom (known : g = .standard ∨ g = .empty) :
    ∀ fuel : Nat, StaysStmt (statementOrErrorFrom g (fuel + 1)) fuel := by
  have law : g.Braceless := by
    rcases known with rfl | rfl
    · exact Grammar.braceless_standard
    · exact Grammar.braceless_empty
  intro fuel
  induction fuel with
  | zero =>
    intro E p few holds
    have more := holds.size
    rw [Parser.pending_of_not_atEnd holds.atEnd, List.length_cons] at more
    omega
  | succ fuel ih =>
    intro E p few holds inside
    have less : p.pending.length < fuel + 1 + 1 := Nat.lt_succ_of_le (holds.size.trans few)
    obtain ⟨run, took⟩ := took_current_statementOrErrorFrom known holds.atEnd less
    refine ⟨?_, by rw [took.pending]; simp⟩
    have stays := stays_statementWith law ih few p holds
    change E.Holds (recovering (statementWith g (statementOrErrorFrom g (fuel + 1))) p).2
    unfold recovering
    cases outcome : statementWith g (statementOrErrorFrom g (fuel + 1)) p with
    | ok s q =>
      rw [outcome] at stays
      exact stays
    | error e q =>
      rw [outcome] at stays
      obtain ⟨run, took⟩ :=
        kept_statementWith_error (Parser.kept_tookRun p) ⟨[], .refl p⟩ outcome
      exact recover_holds holds inside stays took

theorem staysStmt_statementOrError (known : g = .standard ∨ g = .empty) (bound : Nat) :
    StaysStmt (statementOrError g) bound := by
  intro E p _ holds inside
  let few : Enclosure := { E with size := p.remaining }
  have here : few.Holds p := ⟨holds.inside, length_pending_le p, holds.blockDepth⟩
  obtain ⟨next, fewer⟩ := staysStmt_statementOrErrorFrom known p.remaining few p le_rfl here inside
  exact ⟨⟨next.inside, fewer.le.trans holds.size, next.blockDepth⟩, fewer⟩

/-- Of the braces among the tokens inside, each has the one that matches it there, so that the brace
behind them matches the one at which the parser stands. A block then takes these tokens and the two
braces, whatever the tokens are, and leaves as many blocks open as there were. -/
theorem block_matching (known : g = .standard ∨ g = .empty) (p : Parser)
    (opens : p.current.kind = .openCurly) (inside : List Delivery) (close : Delivery)
    (after : List Delivery) (upcoming : p.upcoming = inside ++ close :: after)
    (endless : ∀ d ∈ inside, d.token.kind ≠ .endOfInput)
    (closes : close.token.kind = .closeCurly)
    (balanced : Token.Balanced (inside.map Delivery.token)) :
    ∃ b q, block (statementOrError g) p = .ok b q ∧
      q.consumed = p.consumed + (inside.length + 2) ∧ q.upcoming = after.drop 1 ∧
      q.pending = (after.map Delivery.token).takeWhile (·.kind ≠ .endOfInput) ∧
      q.blockDepth = p.blockDepth := by
  have more : p.atEnd = false := by simp [Parser.atEnd, opens]
  have whole : p.pending = p.current :: (inside.map Delivery.token ++
      close.token :: (after.map Delivery.token).takeWhile (·.kind ≠ .endOfInput)) := by
    have front : ∀ t ∈ inside.map Delivery.token, decide (t.kind ≠ .endOfInput) = true := by
      simpa using endless
    rw [Parser.pending, upcoming, List.map_append, List.map_cons,
      List.takeWhile_cons_of_pos (by simp [opens]), List.takeWhile_append_of_pos front,
      List.takeWhile_cons_of_pos (by simp [closes])]
  obtain ⟨b, q, read, pending, depth⟩ := block_of_open
    (staysStmt_statementOrError known p.advance.pending.length) opens
    (Parser.of_pending_eq_cons whole).2.2 closes balanced le_rfl
  obtain ⟨run, took⟩ := kept_block (Parser.kept_tookRun p) ⟨[], .refl p⟩ read
  have taken : run.length = inside.length + 2 := by
    have count := congrArg List.length took.pending
    rw [whole, pending] at count
    simp only [List.length_append, List.length_cons, List.length_map] at count
    omega
  refine ⟨b, q, read, taken ▸ took.consumed, ?_, pending, depth⟩
  rw [took.upcoming, taken, upcoming]
  simp [List.drop_append]

/-- A block that holds an unknown character and another block, in which a function breaks off; a
statement follows. -/
def brokenBlock : List Delivery := deliveries "\x7b ? \x7b fn \x7d \x7d x;".toList

/-- Inside of three other blocks. -/
theorem block_matching_brokenBlock :
    ∃ b q, block (statementOrError .standard)
        { Parser.start brokenBlock .fresh with blockDepth := 3 } = .ok b q ∧
      q.consumed = 6 ∧ q.pending.map Token.kind = [.identifier, .semicolon] ∧ q.blockDepth = 3 := by
  obtain ⟨b, q, read, consumed, -, pending, depth⟩ := block_matching (.inl rfl)
    { Parser.start brokenBlock .fresh with blockDepth := 3 } (by decide +kernel)
    ((brokenBlock.drop 1).take 4) (brokenBlock.get ⟨5, by decide +kernel⟩) (brokenBlock.drop 6)
    (by decide +kernel) (by decide +kernel) (by decide +kernel)
    (by unfold Token.Balanced; decide +kernel)
  refine ⟨b, q, read, consumed.trans (by decide +kernel), ?_, depth⟩
  rw [pending]
  decide +kernel

end Parse

end MiniLang
