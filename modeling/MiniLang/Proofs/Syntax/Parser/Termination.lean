import MiniLang.Proofs.Syntax.Parser.Soundness.Statements

/-!
# Bounds that are never felt

Every loop of the parser is bounded, and so is every nesting. None of these bounds is what ends it:
with any larger one the outcome is the same, because each round and each level takes a token first.
So the parser is the one without bounds (`expression_eq`, `statementOrError_eq`), which therefore
ends on every list of tokens.
-/

set_option autoImplicit false

namespace MiniLang.Parse

open MiniLang.Parser

variable {α β : Type} {d : Dialect} {p : Parser} {n : Nat}

/-- Actions that do the same, one after the other: the second has to do the same only behind the
first. -/
theorem bind_congr {action action' : Parse α} {rest rest' : α → Parse β}
    {post : α → Parser → Prop} (same : action p = action' p) (h : Meets action p post)
    (next : ∀ a q, Onward p q → post a q → rest a q = rest' a q) :
    (action >>= rest) p = (action' >>= rest') p := by
  unfold Meets at h
  cases result : action p with
  | ok a q =>
    rw [result] at h
    rw [bind_eq_of_ok result, bind_eq_of_ok (same.symm.trans result)]
    exact next a q h.1 h.2
  | error e q =>
    rw [bind_eq_of_error result, bind_eq_of_error (same.symm.trans result)]

theorem map_congr {action action' : Parse α} {f : α → β} (same : action p = action' p) :
    (f <$> action) p = (f <$> action') p := by
  change EStateM.map f action p = EStateM.map f action' p
  rw [EStateM.map, EStateM.map, same]

theorem advance_congr {rest rest' : Token → Parse β}
    (h : rest p.current p.advance = rest' p.current p.advance) :
    (advance >>= rest) p = (advance >>= rest') p := h

theorem kind_congr {rest rest' : TokenKind → Parse β}
    (h : rest p.current.kind p = rest' p.current.kind p) :
    (currentKind >>= rest) p = (currentKind >>= rest') p := h

theorem depth_congr {rest rest' : Nat → Parse β}
    (h : rest p.blockDepth p = rest' p.blockDepth p) :
    (blockDepth >>= rest) p = (blockDepth >>= rest') p := h

theorem freshId_congr {rest rest' : NodeId → Parse β}
    (h : rest p.nextId { p with nextId := p.nextId + 1 } =
      rest' p.nextId { p with nextId := p.nextId + 1 }) :
    (freshId >>= rest) p = (freshId >>= rest') p := h

theorem choice_congr {c : Prop} [Decidable c] {yes yes' no no' : Parse α}
    (h : c → yes p = yes' p) (h' : ¬c → no p = no' p) :
    (if c then yes else no) p = (if c then yes' else no') p := by
  by_cases test : c
  · rw [if_pos test, if_pos test]
    exact h test
  · rw [if_neg test, if_neg test]
    exact h' test

theorem expect_congr {kind : TokenKind} {expected : String} {rest rest' : Token → Parse β}
    (h : p.current.kind = kind → rest p.current p.advance = rest' p.current p.advance) :
    (expect kind expected >>= rest) p = (expect kind expected >>= rest') p := by
  by_cases is : p.current.kind = kind
  · have taken : expect kind expected p = .ok p.current p.advance := if_pos is
    rw [bind_eq_of_ok taken, bind_eq_of_ok taken]
    exact h is
  · have stops : expect kind expected p = .error _ p := if_neg is
    rw [bind_eq_of_error stops, bind_eq_of_error stops]

theorem expectClosing_congr {kind : TokenKind} {expected construct : String} {opening : Token}
    {rest rest' : Token → Parse β}
    (h : p.current.kind = kind → rest p.current p.advance = rest' p.current p.advance) :
    (expectClosing kind expected construct opening >>= rest) p =
      (expectClosing kind expected construct opening >>= rest') p := by
  by_cases ends : p.atEnd = true
  · have stops : expectClosing kind expected construct opening p = .error _ _ := if_pos ends
    rw [bind_eq_of_error stops, bind_eq_of_error stops]
  · have same : expectClosing kind expected construct opening p = expect kind expected p :=
      if_neg ends
    have direct : (expect kind expected >>= rest) p = (expect kind expected >>= rest') p :=
      expect_congr h
    change EStateM.bind _ _ p = EStateM.bind _ _ p at direct ⊢
    rw [EStateM.bind, EStateM.bind, same]
    exact direct

/-- The dialect in which anything is accepted. -/
abbrev anything : Dialect := ⟨Enclosed, fun _ => True⟩

theorem accepts_any (p : Parser) : Accepts anything p := fun _ _ enclosed _ => enclosed

/-- Only the end of the input is not followed by fewer terminals. -/
theorem length_ahead_advance_lt_of_kind {kind : TokenKind} (is : p.current.kind = kind)
    (more : kind ≠ .endOfInput) : p.advance.ahead.length < p.ahead.length :=
  length_ahead_advance_lt (by simpa [Parser.atEnd, is] using more)

/-! ## Expressions -/

/-- Parsers of expressions do the same as long as less than `n` terminals are ahead. -/
def AgreeBelow (n : Nat) (inner inner' : ExprParser) : Prop :=
  ∀ power p, p.ahead.length < n → inner power p = inner' power p

section Expressions

variable {inner inner' : ExprParser} (sound : SoundExpr anything inner)
  (agree : AgreeBelow n inner inner')

include sound agree

theorem commaSeparated_congr :
    ∀ (fuel fuel' : Nat) {p : Parser}, p.ahead.length < fuel → p.ahead.length < fuel' →
      p.ahead.length < n → commaSeparated inner fuel p = commaSeparated inner' fuel' p
  | 0, _, _, less, _, _ => absurd less (Nat.not_lt_zero _)
  | _ + 1, 0, _, _, less, _ => absurd less (Nat.not_lt_zero _)
  | fuel + 1, fuel' + 1, p, less, less', below => by
    refine bind_congr (agree _ p below) (sound .default p (accepts_any p)) fun e q step _ => ?_
    refine kind_congr (choice_congr (fun comma => advance_congr ?_) fun _ => rfl)
    have fewer := length_ahead_advance_lt_of_kind comma (by decide)
    have le := step.length_le
    have same := commaSeparated_congr fuel fuel' (p := q.advance) (by omega) (by omega) (by omega)
    exact bind_congr same (meets_commaSeparated sound fuel _ (accepts_any _) (by omega))
      fun _ _ _ _ => rfl

theorem arguments_congr (below : p.ahead.length < n) :
    arguments inner p = arguments inner' p :=
  kind_congr (choice_congr (fun _ => rfl) fun _ =>
    commaSeparated_congr sound agree _ _ (Nat.lt_succ_of_le p.length_ahead_le)
      (Nat.lt_succ_of_le p.length_ahead_le) below)

theorem prefixForm_congr {rule : PrefixRule}
    (begins : Grammar.standard.prefixRule p.current.kind = some rule) (le : p.ahead.length ≤ n) :
    prefixForm inner rule p = prefixForm inner' rule p := by
  have below : p.advance.ahead.length < n := by
    refine (length_ahead_advance_lt_of_kind rfl ?_).trans_le le
    intro ends
    rw [ends] at begins
    cases begins
  cases rule with
  | literal => rfl
  | name =>
    refine advance_congr (kind_congr (choice_congr (fun opens => advance_congr ?_) fun _ => rfl))
    have fewer := length_ahead_advance_lt_of_kind opens (by decide)
    exact bind_congr (arguments_congr sound agree (fewer.trans below))
      (meets_arguments sound (accepts_any _)) fun _ _ _ _ => rfl
  | operator =>
    exact advance_congr (bind_congr (agree _ _ below) (sound _ _ (accepts_any _))
      fun _ _ _ _ => rfl)
  | grouping =>
    exact advance_congr (bind_congr (agree _ _ below) (sound _ _ (accepts_any _))
      fun _ _ _ _ => rfl)
  | unknown => rfl

theorem infixForm_congr {own power : BindingPower} {rule : InfixRule} (left : Expr)
    (continues : Grammar.standard.infixRule p.current.kind = some (own, rule))
    (le : p.ahead.length ≤ n) :
    infixForm inner power left rule p = infixForm inner' power left rule p := by
  have below : p.advance.ahead.length < n := by
    refine (length_ahead_advance_lt_of_kind rfl ?_).trans_le le
    intro ends
    rw [ends] at continues
    cases continues
  cases rule with
  | operator =>
    refine advance_congr ?_
    cases BinaryOp.ofToken? p.current.kind with
    | none => rfl
    | some op =>
      exact bind_congr (agree _ _ below) (sound _ _ (accepts_any _)) fun _ _ _ _ => rfl
  | assignment =>
    exact advance_congr (bind_congr (agree _ _ below) (sound _ _ (accepts_any _))
      fun _ _ _ _ => rfl)

omit agree in
/-- Whatever stands on the left, a form that continues an expression takes at least one token. -/
theorem meets_infixForm_shorter {own power : BindingPower} {rule : InfixRule} (left : Expr)
    (continues : Grammar.standard.infixRule p.current.kind = some (own, rule)) :
    Meets (infixForm inner power left rule) p fun _ q => q.ahead.length < p.ahead.length := by
  have more : p.atEnd = false := by
    cases atEnd : p.atEnd with
    | false => rfl
    | true =>
      rw [beq_iff_eq.1 atEnd] at continues
      cases continues
  have node : ∀ {q : Parser} {e : NodeId → Expr},
      Meets (do return e (← freshId)) q fun _ _ => True := .freshId fun _ _ _ _ _ => .pure trivial
  have shorter : ∀ {action : Parse Expr}, Meets action p.advance (fun _ _ => True) →
      Meets action p.advance fun _ q => q.ahead.length < p.ahead.length := fun h =>
    (h.shorter more).imp fun _ _ _ both => both.1
  cases rule with
  | operator =>
    obtain ⟨op, stands, -⟩ := exists_operators continues
    refine .advance (shorter ?_)
    rw [stands]
    exact (sound _ _ (accepts_any _)).bind fun _ _ _ _ => node
  | assignment =>
    refine .advance (shorter ?_)
    refine (sound _ _ (accepts_any _)).bind fun _ _ _ _ => ?_
    split
    · exact node
    · exact .fail rfl (fun _ => rfl) rfl

theorem extend_congr (power : BindingPower) :
    ∀ (fuel fuel' : Nat) (left : Expr) {p : Parser}, p.ahead.length < fuel →
      p.ahead.length < fuel' → p.ahead.length ≤ n →
      extend .standard inner power fuel left p = extend .standard inner' power fuel' left p
  | 0, _, _, _, less, _, _ => absurd less (Nat.not_lt_zero _)
  | _ + 1, 0, _, _, _, less, _ => absurd less (Nat.not_lt_zero _)
  | fuel + 1, fuel' + 1, left, p, less, less', le => by
    refine kind_congr ?_
    cases continues : Grammar.standard.infixRule p.current.kind with
    | none => rfl
    | some found =>
      obtain ⟨own, rule⟩ := found
      refine choice_congr (fun _ => rfl) fun _ => ?_
      refine bind_congr (infixForm_congr sound agree left continues le)
        (meets_infixForm_shorter sound left continues) fun e q _ shorter => ?_
      exact extend_congr power fuel fuel' e (by omega) (by omega) (by omega)

end Expressions

theorem expressionFrom_congr :
    ∀ (fuel fuel' : Nat) (power : BindingPower) {p : Parser}, p.ahead.length < fuel →
      p.ahead.length < fuel' →
      expressionFrom .standard fuel power p = expressionFrom .standard fuel' power p
  | 0, _, _, _, less, _ => absurd less (Nat.not_lt_zero _)
  | _ + 1, 0, _, _, _, less => absurd less (Nat.not_lt_zero _)
  | fuel + 1, fuel' + 1, power, p, less, less' => by
    have sound := soundExpr_expressionFrom anything fuel
    have agree : AgreeBelow p.ahead.length (expressionFrom .standard fuel)
        (expressionFrom .standard fuel') := fun power q below =>
      expressionFrom_congr fuel fuel' power (by omega) (by omega)
    refine kind_congr ?_
    cases begins : Grammar.standard.prefixRule p.current.kind with
    | none => rfl
    | some rule =>
      refine bind_congr (prefixForm_congr sound agree begins le_rfl)
        (meets_prefixForm sound (accepts_any p) begins) fun left q move _ => ?_
      have more := Nat.lt_succ_of_le q.length_ahead_le
      exact extend_congr sound agree power _ _ left more more move.length_le

/-- Any bound on how deep expressions nest will do if it is greater than the number of tokens. -/
theorem expressionFrom_eq_expression {fuel : Nat} (power : BindingPower)
    (enough : p.ahead.length < fuel) :
    expressionFrom .standard fuel power p = expression .standard power p :=
  expressionFrom_congr fuel _ power enough (Nat.lt_succ_of_le p.length_ahead_le)

theorem soundExpr_expression : SoundExpr anything (expression .standard) :=
  fun power _ accepts => meets_expression power accepts

/-- Expressions contain expressions, and go on while there are operators. -/
theorem expression_eq (power : BindingPower) (p : Parser) :
    expression .standard power p =
      (currentKind >>= fun kind =>
        match Grammar.standard.prefixRule kind with
        | none => fun q => .error (.unexpected "expression" q.current) q
        | some rule => do
          let left ← prefixForm (expression .standard) rule
          bounded fun rounds => extend .standard (expression .standard) power rounds left) p := by
  have agree : AgreeBelow p.ahead.length (expressionFrom .standard p.remaining)
      (expression .standard) := fun power q below =>
    expressionFrom_eq_expression power (below.trans_le p.length_ahead_le)
  have sound := soundExpr_expressionFrom anything p.remaining
  refine kind_congr ?_
  cases begins : Grammar.standard.prefixRule p.current.kind with
  | none => rfl
  | some rule =>
    refine bind_congr (prefixForm_congr sound agree begins le_rfl)
      (meets_prefixForm sound (accepts_any p) begins) fun left q move _ => ?_
    have more := Nat.lt_succ_of_le q.length_ahead_le
    exact extend_congr sound agree power _ _ left more more move.length_le

/-! ## Statements -/

theorem commaSeparatedParams_congr :
    ∀ (fuel fuel' : Nat) {p : Parser}, p.ahead.length < fuel → p.ahead.length < fuel' →
      commaSeparatedParams fuel p = commaSeparatedParams fuel' p
  | 0, _, _, less, _ => absurd less (Nat.not_lt_zero _)
  | _ + 1, 0, _, _, less => absurd less (Nat.not_lt_zero _)
  | fuel + 1, fuel' + 1, p, less, less' => by
    refine expect_congr fun isName => expect_congr fun _ => ?_
    have fewer := length_ahead_advance_lt_of_kind isName (by decide)
    refine bind_congr rfl meets_typeName fun type q step _ => freshId_congr ?_
    refine kind_congr (choice_congr (fun comma => advance_congr ?_) fun _ => rfl)
    have shorter := length_ahead_advance_lt_of_kind comma (by decide)
    have le := (onward_advance p.advance).length_le
    have le' : ({ q with nextId := q.nextId + 1 } : Parser).ahead.length ≤
        p.advance.advance.ahead.length := step.length_le
    have same := commaSeparatedParams_congr fuel fuel'
      (p := ({ q with nextId := q.nextId + 1 } : Parser).advance) (by omega) (by omega)
    exact bind_congr same (meets_commaSeparatedParams fuel _ (by omega)) fun _ _ _ _ => rfl

/-- Parsers of statements do the same as long as less than `n` terminals are ahead. -/
def StmtsAgreeBelow (n : Nat) (inner inner' : Parser → Stmt × Parser) : Prop :=
  ∀ p, p.ahead.length < n → inner p = inner' p

section Statements

variable {inner inner' : Parser → Stmt × Parser} (sound : SoundStmt anything inner n)
  (agree : StmtsAgreeBelow n inner inner')

include sound agree

theorem statements_congr :
    ∀ (fuel fuel' : Nat) {p : Parser}, p.ahead.length < fuel → p.ahead.length < fuel' →
      p.ahead.length < n → statements inner fuel p = statements inner' fuel' p
  | 0, _, _, less, _, _ => absurd less (Nat.not_lt_zero _)
  | _ + 1, 0, _, _, less, _ => absurd less (Nat.not_lt_zero _)
  | fuel + 1, fuel' + 1, p, less, less', below => by
    rw [statements, statements]
    split
    · rfl
    next more =>
      have nonempty : p.ahead ≠ [] := fun nothing => more (.inr (atEnd_of_ahead_eq_nil nothing))
      obtain ⟨-, fewer, -⟩ := sound p (accepts_any p) nonempty below
      simp only [← agree p below]
      rw [statements_congr fuel fuel' (p := (inner p).2) (by omega) (by omega) (by omega)]

theorem blockBody_congr (below : p.ahead.length < n) : blockBody inner p = blockBody inner' p := by
  have more := Nat.lt_succ_of_le p.length_ahead_le
  have same := statements_congr sound agree (p.remaining + 1) (p.remaining + 1)
    (p := { p with blockDepth := p.blockDepth + 1 }) more more below
  simp only [blockBody, same]

theorem block_congr (le : p.ahead.length ≤ n) : block inner p = block inner' p := by
  by_cases opens : p.current.kind = .openCurly
  · have opening : expect .openCurly "`\x7b`" p = .ok p.current p.advance := if_pos opens
    have fewer := length_ahead_advance_lt_of_kind opens (by decide)
    unfold block
    have numbered : freshId p.advance = .ok _ _ := rfl
    rw [bind_eq_of_ok opening, bind_eq_of_ok opening, bind_eq_of_ok numbered,
      bind_eq_of_ok numbered]
    have below : p.advance.ahead.length < n := by omega
    exact bind_congr (blockBody_congr sound agree below)
      (meets_blockBody sound (accepts_any _) below) fun _ _ _ _ => rfl
  · have stops : expect .openCurly "`\x7b`" p = .error _ p := if_neg opens
    rw [block, block, bind_eq_of_error stops, bind_eq_of_error stops]

end Statements

section Blocks

variable {blockOf blockOf' : Parse Block} (sound : SoundBlock anything blockOf n)
  (agree : ∀ q : Parser, q.ahead.length ≤ n → blockOf q = blockOf' q)

include sound agree

theorem ifStatement_congr :
    ∀ (fuel fuel' : Nat) {p : Parser}, p.ahead.length < fuel → p.ahead.length < fuel' →
      p.ahead.length ≤ n →
      ifStatement .standard blockOf fuel p = ifStatement .standard blockOf' fuel' p
  | 0, _, _, less, _, _ => absurd less (Nat.not_lt_zero _)
  | _ + 1, 0, _, _, less, _ => absurd less (Nat.not_lt_zero _)
  | fuel + 1, fuel' + 1, p, less, less', le => by
    have le₁ := (onward_advance p).length_le
    refine advance_congr (bind_congr rfl (meets_condition (accepts_any _)) ?_)
    intro test q step _
    have le₂ := step.length_le
    refine bind_congr (agree q (by omega)) (sound q (accepts_any q) (by omega)) ?_
    intro yes r step' _
    have le₃ := step'.length_le
    refine kind_congr (choice_congr (fun otherwise => advance_congr (kind_congr ?_)) fun _ => rfl)
    have fewer := length_ahead_advance_lt_of_kind otherwise (by decide)
    refine choice_congr (fun again => ?_) fun _ => ?_
    · have same := ifStatement_congr fuel fuel' (p := r.advance) (by omega) (by omega) (by omega)
      exact bind_congr same (meets_ifStatement sound fuel (accepts_any _) (by omega) again)
        fun _ _ _ _ => rfl
    · have block : Meets (Stmt.block <$> blockOf) r.advance fun _ _ => True :=
        .map ((sound r.advance (accepts_any _) (by omega)).imp fun _ _ _ _ => trivial)
      exact bind_congr (map_congr (agree _ (by omega))) block fun _ _ _ _ => rfl

theorem whileStatement_congr (le : p.ahead.length ≤ n) :
    whileStatement .standard blockOf p = whileStatement .standard blockOf' p := by
  have le₁ := (onward_advance p).length_le
  refine advance_congr (bind_congr rfl (meets_condition (accepts_any _)) fun test q step _ => ?_)
  have le₂ := step.length_le
  exact bind_congr (agree q (by omega)) (sound q (accepts_any q) (by omega)) fun _ _ _ _ => rfl

theorem functionStatement_congr (le : p.ahead.length ≤ n) :
    functionStatement blockOf p = functionStatement blockOf' p := by
  have le₁ := (onward_advance p).length_le
  have le₂ := (onward_advance p.advance).length_le
  have le₃ := (onward_advance p.advance.advance).length_le
  refine advance_congr (expect_congr fun _ => expect_congr fun _ => ?_)
  refine bind_congr rfl meets_params fun parameters q step _ => expectClosing_congr fun _ => ?_
  have le₄ := step.length_le
  have le₅ := (onward_advance q).length_le
  refine bind_congr rfl (meets_typeAfter (by decide) (by decide)) fun result r step' _ =>
    depth_congr ?_
  have le₆ := step'.length_le
  exact bind_congr (agree r (by omega)) (sound r (accepts_any r) (by omega)) fun _ _ _ _ => rfl

end Blocks

theorem statementWith_congr {inner inner' : Parser → Stmt × Parser}
    (sound : SoundStmt anything inner n) (agree : StmtsAgreeBelow n inner inner')
    (le : p.ahead.length ≤ n) :
    statementWith .standard inner p = statementWith .standard inner' p := by
  have blocks := soundBlock_block sound
  have same : ∀ q : Parser, q.ahead.length ≤ n → block inner q = block inner' q := fun q below =>
    block_congr sound agree below
  refine kind_congr ?_
  cases Grammar.standard.statementRule p.current.kind with
  | none => rfl
  | some rule =>
    cases rule with
    | letVar => rfl
    | ifElse =>
      have more := Nat.lt_succ_of_le p.length_ahead_le
      exact ifStatement_congr blocks same _ _ more more le
    | whileLoop => exact whileStatement_congr blocks same le
    | block => exact map_congr (same p le)
    | function => exact functionStatement_congr blocks same le
    | ret => rfl

theorem statementOrErrorFrom_congr :
    ∀ (fuel fuel' : Nat) {p : Parser}, p.ahead.length < fuel → p.ahead.length < fuel' →
      statementOrErrorFrom .standard fuel p = statementOrErrorFrom .standard fuel' p
  | 0, _, _, less, _ => absurd less (Nat.not_lt_zero _)
  | _ + 1, 0, _, _, less => absurd less (Nat.not_lt_zero _)
  | fuel + 1, fuel' + 1, p, less, less' => by
    have sound : SoundStmt anything (statementOrErrorFrom .standard fuel) p.ahead.length :=
      fun q accepts nonempty below =>
        soundStmt_statementOrErrorFrom anything fuel q accepts nonempty (by omega)
    have agree : StmtsAgreeBelow p.ahead.length (statementOrErrorFrom .standard fuel)
        (statementOrErrorFrom .standard fuel') := fun q below =>
      statementOrErrorFrom_congr fuel fuel' (by omega) (by omega)
    have same := statementWith_congr sound agree le_rfl
    change recovering _ p = recovering _ p
    rw [recovering, recovering, same]

/-- Any bound on how deep blocks nest will do if it is greater than the number of tokens. -/
theorem statementOrErrorFrom_eq_statementOrError {fuel : Nat} (enough : p.ahead.length < fuel) :
    statementOrErrorFrom .standard fuel p = statementOrError .standard p :=
  statementOrErrorFrom_congr fuel _ enough (Nat.lt_succ_of_le p.length_ahead_le)

theorem soundStmt_statementOrError (bound : Nat) :
    SoundStmt anything (statementOrError .standard) bound := fun p accepts nonempty _ =>
  soundStmt_statementOrErrorFrom anything _ p accepts nonempty (Nat.lt_succ_of_le p.length_ahead_le)

/-- Statements contain statements. -/
theorem statementOrError_eq (p : Parser) :
    statementOrError .standard p = recovering (statement .standard) p := by
  have agree : StmtsAgreeBelow p.ahead.length (statementOrErrorFrom .standard p.remaining)
      (statementOrError .standard) := fun q below =>
    statementOrErrorFrom_eq_statementOrError (below.trans_le p.length_ahead_le)
  have sound : SoundStmt anything (statementOrErrorFrom .standard p.remaining) p.ahead.length :=
    fun q accepts nonempty below => soundStmt_statementOrErrorFrom anything _ q accepts nonempty
      (below.trans_le p.length_ahead_le)
  change recovering _ p = recovering _ p
  rw [recovering, recovering, statement, statementWith_congr sound agree le_rfl]

theorem synchronizeFrom_congr :
    ∀ (fuel fuel' depth : Nat) {p : Parser}, p.ahead.length < fuel → p.ahead.length < fuel' →
      p.synchronizeFrom fuel depth = p.synchronizeFrom fuel' depth
  | 0, _, _, _, less, _ => absurd less (Nat.not_lt_zero _)
  | _ + 1, 0, _, _, _, less => absurd less (Nat.not_lt_zero _)
  | fuel + 1, fuel' + 1, depth, p, less, less' => by
    by_cases ends : p.current.kind = .endOfInput
    · simp only [Parser.synchronizeFrom, ends]
    · have fewer := length_ahead_advance_lt_of_kind rfl ends
      have next := fun depth => synchronizeFrom_congr fuel fuel' depth (p := p.advance) (by omega)
        (by omega)
      simp only [Parser.synchronizeFrom, next]

theorem topLevel_congr :
    ∀ (fuel fuel' : Nat) {p : Parser}, p.ahead.length < fuel → p.ahead.length < fuel' →
      topLevel .standard fuel p = topLevel .standard fuel' p
  | 0, _, _, less, _ => absurd less (Nat.not_lt_zero _)
  | _ + 1, 0, _, _, less => absurd less (Nat.not_lt_zero _)
  | fuel + 1, fuel' + 1, p, less, less' => by
    rw [topLevel, topLevel]
    split
    · rfl
    next more =>
      have nonempty : p.ahead ≠ [] := fun nothing => more (atEnd_of_ahead_eq_nil nothing)
      obtain ⟨asked, -⟩ := onward_checkpoint p p.current.span
      obtain ⟨-, fewer, -⟩ := soundStmt_statementOrError (p.ahead.length + 1)
        { p with session := (p.session.checkpoint p.current.span).2 } (accepts_any _) nonempty
        (Nat.lt_succ_of_le asked.length_le)
      have le := asked.length_le
      simp only
      split
      · rw [topLevel_congr fuel fuel' (by omega) (by omega)]
      · rfl

/-- No bound on rounds or nesting ends what a parser does: with every bound greater than the number
of tokens before the end of the input the outcome is the same. -/
structure Unlimited (p : Parser) : Prop where
  /-- Expressions in expressions. -/
  expression : ∀ power fuel, p.ahead.length < fuel →
    expressionFrom .standard fuel power p = expression .standard power p
  /-- Operators after an expression. -/
  operators : ∀ power left fuel, p.ahead.length < fuel →
    extend .standard (Parse.expression .standard) power fuel left p =
      bounded (fun rounds => extend .standard (Parse.expression .standard) power rounds left) p
  /-- Arguments of a call. -/
  arguments : ∀ fuel, p.ahead.length < fuel →
    commaSeparated (Parse.expression .standard) fuel p =
      bounded (commaSeparated (Parse.expression .standard)) p
  /-- Parameters of a function. -/
  params : ∀ fuel, p.ahead.length < fuel →
    commaSeparatedParams fuel p = bounded commaSeparatedParams p
  /-- Choices after choices. -/
  choices : ∀ fuel, p.ahead.length < fuel →
    ifStatement .standard (block (statementOrError .standard)) fuel p =
      bounded (ifStatement .standard (block (statementOrError .standard))) p
  /-- Statements of a block. -/
  statements : ∀ fuel, p.ahead.length < fuel →
    statements (statementOrError .standard) fuel p =
      Parse.statements (statementOrError .standard) (p.remaining + 1) p
  /-- Blocks in blocks. -/
  nesting : ∀ fuel, p.ahead.length < fuel →
    statementOrErrorFrom .standard fuel p = statementOrError .standard p
  /-- Tokens that are skipped. -/
  skipping : ∀ depth fuel, p.ahead.length < fuel →
    p.synchronizeFrom fuel depth = p.synchronizeFrom (p.remaining + 1) depth
  /-- Statements of a program. -/
  program : ∀ fuel, p.ahead.length < fuel →
    topLevel .standard fuel p = topLevel .standard (p.remaining + 1) p

theorem unlimited (p : Parser) : Unlimited p := by
  have more : p.ahead.length < p.remaining + 1 := Nat.lt_succ_of_le p.length_ahead_le
  have sound := soundStmt_statementOrError (p.ahead.length + 1)
  have agree : StmtsAgreeBelow (p.ahead.length + 1) (statementOrError .standard)
      (statementOrError .standard) := fun _ _ => rfl
  have agreeExpr : AgreeBelow (p.ahead.length + 1) (Parse.expression .standard)
      (Parse.expression .standard) := fun _ _ _ => rfl
  have below := Nat.lt_succ_self p.ahead.length
  constructor
  case expression => exact fun power fuel enough => expressionFrom_eq_expression power enough
  case operators =>
    exact fun power left fuel enough =>
      extend_congr soundExpr_expression agreeExpr power fuel _ left enough more below.le
  case arguments =>
    exact fun fuel enough =>
      commaSeparated_congr soundExpr_expression agreeExpr fuel _ enough more below
  case params => exact fun fuel enough => commaSeparatedParams_congr fuel _ enough more
  case choices =>
    exact fun fuel enough =>
      ifStatement_congr (soundBlock_block sound) (fun _ _ => rfl) fuel _ enough more below.le
  case statements => exact fun fuel enough => statements_congr sound agree fuel _ enough more below
  case nesting => exact fun fuel enough => statementOrErrorFrom_eq_statementOrError enough
  case skipping => exact fun depth fuel enough => synchronizeFrom_congr fuel _ depth enough more
  case program => exact fun fuel enough => topLevel_congr fuel _ enough more

end MiniLang.Parse
