import MiniLang.Proofs.Syntax.Parser.Ahead
import MiniLang.Proofs.Syntax.Parser.Order.Expressions

/-!
# Where statements stand, and what is found in them

A statement that is read, or the placeholder that stands for it, takes up the part of the text that
the parser went through, with all of its parts in order (`Stmt.Laid`). What is found in it is found
once: where a parser recovers it leaves behind what it found, unless it stands before a closing
brace or at the end of the input, where it may have found something at that very token
(`Parser.Stuck`). Inside of a block nobody blames this token again
(`laysStmt_statementOrErrorFrom`).
-/

set_option autoImplicit false

namespace MiniLang

open MiniLang.Parser

/-- A statement was read on the way from one parser to another. -/
structure Stmt.Laid (p : Parser) (s : Stmt) (q : Parser) : Prop where
  start : p.here ≤ s.span.start
  stop : s.span.stop ≤ q.previousSpan.stop
  laidOut : s.LaidOut

/-- A block was read on the way from one parser to another. -/
structure Block.Laid (p : Parser) (b : Block) (q : Parser) : Prop where
  start : p.here ≤ b.span.start
  stop : b.span.stop ≤ q.previousSpan.stop
  laidOut : Stmt.BlockLaidOut b

/-- Parameters were read on the way from one parser to another. -/
structure Param.AllLaid (p : Parser) (xs : List Param) (q : Parser) : Prop where
  inOrder : Span.InOrder p.here q.here (xs.map Param.span)
  laidOut : ∀ x ∈ xs, x.span.Holds [x.type.span]
  silent : q.session = p.session

/-- Where recovery stops before it has taken the token it stopped at. -/
def Parser.Stuck (p : Parser) : Prop := p.current.kind = .closeCurly ∨ p.atEnd = true

theorem Block.Laid.places {p q : Parser} {b : Block} (h : b.Laid p q) :
    p.here ≤ b.span.start ∧ b.span.start < b.span.stop ∧ b.span.stop ≤ q.previousSpan.stop :=
  ⟨h.start, h.laidOut.nonempty, h.stop⟩

theorem Stmt.Laid.places {p q : Parser} {s : Stmt} (h : s.Laid p q) :
    p.here ≤ s.span.start ∧ s.span.start < s.span.stop ∧ s.span.stop ≤ q.previousSpan.stop :=
  ⟨h.start, h.laidOut.nonempty, h.stop⟩

namespace Parse

variable {p : Parser}

/-! ## Forms without blocks -/

theorem lays_typeName (p : Parser) :
    Lays p typeName p fun type q => ∃ t, Took p t q ∧ type.span = t.span := by
  have result : (p.atEnd = false ∧ ∃ name, typeName p = .ok ⟨name, p.current.span⟩ p.advance) ∨
      typeName p = .error (.unexpected "type" p.current) p := by
    unfold typeName
    split
    next is => exact .inl ⟨atEnd_eq_false_of_kind is (by decide), _, rfl⟩
    next is => exact .inl ⟨atEnd_eq_false_of_kind is (by decide), _, rfl⟩
    next => exact .inr rfl
  rcases result with ⟨more, name, same⟩ | same
  · intro went
    rw [same]
    have took := went.inOrder.took more
    exact ⟨took.went, _, took, rfl⟩
  · exact .unexpectedHere same

theorem lays_typeAfter {kind : TokenKind} (going : kind ≠ .endOfInput) (p : Parser) :
    Lays p (typeAfter kind) p fun type q =>
      Span.InOrder p.here q.here (type.map WrittenType.span).toList ∧ q.session = p.session := by
  refine .kind (.ite (fun is => ?_) fun _ => .pure fun _ => ⟨Nat.le_refl _, rfl⟩)
  refine (lays_advance (atEnd_eq_false_of_kind is going)).bind fun _ q _ took => ?_
  refine (lays_typeName q).bind fun type r _ ⟨t, took₁, same⟩ => .pure fun _ => ?_
  obtain ⟨start, nonempty, -, behind⟩ := took.places
  obtain ⟨start₁, nonempty₁, -, behind₁⟩ := took₁.places
  refine ⟨.singleton ?_ ?_ ?_, took₁.session.trans took.session⟩ <;> rw [same] <;> omega

theorem lays_letStatement (p : Parser) (more : p.atEnd = false) :
    Lays p (letStatement .standard) p (Stmt.Laid p) := by
  refine (lays_advance more).bind fun start q₁ _ took₁ => ?_
  refine (lays_expect (by decide) _ _).bind fun name q₂ _ took₂ => ?_
  refine (lays_typeAfter (by decide) _).bind fun declared q₃ _ ⟨types, _⟩ => ?_
  refine (lays_expect (by decide) _ _).bind fun _ q₄ went₄ _ => ?_
  refine (lays_expression _ _).bind fun value q₅ went₅ laid => ?_
  refine (lays_expect (by decide) _ _).bind fun stop q₆ _ took₆ => ?_
  refine (lays_freshId _).bind fun id q₇ _ ⟨previous, _, _⟩ => .pure fun _ => ?_
  obtain ⟨start₁, nonempty₁, -, behind₁⟩ := took₁.places
  obtain ⟨start₂, nonempty₂, -, behind₂⟩ := took₂.places
  obtain ⟨start₅, nonempty₅, stop₅⟩ := laid.places
  obtain ⟨start₆, nonempty₆, stop₆, -⟩ := took₆.places
  have before := went₄.here_le
  have upTo := went₅.inOrder.previous
  have onward := types.le
  have parts : Span.InOrder name.span.start value.span.stop
      (name.span :: (declared.map WrittenType.span).toList ++ [value.span]) :=
    ⟨Nat.le_refl _, nonempty₂, (types.widen behind₂ before).append
      (.singleton start₅ nonempty₅ (Nat.le_refl _))⟩
  refine ⟨start₁.le, ?_, .join parts (by omega) (by omega) (.inl (by omega)), laid.laidOut⟩
  rw [previous]
  exact Nat.max_le.2 ⟨stop₆.ge, by omega⟩

theorem lays_condition (p : Parser) : Lays p (condition .standard) p (Expr.Laid p) := by
  refine (lays_expect (by decide) _ p).bind fun opening q₁ went₁ took₁ => ?_
  refine (lays_expression _ _).bind fun e q₂ went₂ laid => ?_
  obtain ⟨start₁, nonempty₁, -, behind₁⟩ := took₁.places
  have onward := went₂.here_le
  have silent := laid.silent.trans took₁.session
  refine .bindFrom (lays_expectClosing (by decide) _ _ silent (by omega) (by omega))
    fun _ q₃ took₃ => .pure fun _ => ?_
  exact ⟨went₁.here_le.trans laid.start, laid.stop.trans took₃.went.previous, laid.laidOut,
    took₃.session.trans silent⟩

theorem lays_returnStatement (more : p.atEnd = false) :
    Lays p (returnStatement .standard) p (Stmt.Laid p) := by
  refine (lays_advance more).bind fun start q₁ went₁ took₁ => .kind ?_
  obtain ⟨start₁, nonempty₁, -, behind₁⟩ := took₁.places
  have close : ∀ (value : Option Expr) (q : Parser), q₁.here ≤ q.here →
      Span.InOrder q₁.here q.here (value.map Expr.span).toList → (∀ e ∈ value, e.LaidOut) →
      Lays p (do
        let stop ← expect .semicolon "`;`"
        return .ret (start.span.join stop.span) value) q (Stmt.Laid p) := by
    intro value q onward inOrder laidOut
    refine (lays_expect (by decide) _ _).bind fun stop r _ took => .pure fun _ => ?_
    obtain ⟨start, nonempty, stops, -⟩ := took.places
    exact ⟨start₁.le, Nat.max_le.2 ⟨stops.ge, by omega⟩,
      .join inOrder (by omega) (by omega) (.inl (by omega)), laidOut⟩
  refine .ite (fun _ => ?_) fun _ => ?_
  · exact close none q₁ (Nat.le_refl _) (Nat.le_refl _) fun _ mem => by cases mem
  · have value : Lays q₁ (some <$> expression .standard .default) q₁ fun value q =>
        Span.InOrder q₁.here q.here (value.map Expr.span).toList ∧ ∀ e ∈ value, e.LaidOut :=
      .map ((lays_expression _ _).imp fun e q went laid =>
        ⟨.singleton laid.start laid.laidOut.nonempty (laid.stop.trans went.inOrder.previous),
          fun _ mem => Option.some.inj mem ▸ laid.laidOut⟩)
    exact value.bind fun e q₂ went₂ ⟨inOrder, laidOut⟩ => close e q₂ went₂.here_le inOrder laidOut

theorem lays_expressionStatement (p : Parser) :
    Lays p (expressionStatement .standard) p (Stmt.Laid p) := by
  refine (lays_expression _ _).bind fun e q₁ went₁ laid => ?_
  refine (lays_expect (by decide) _ _).bind fun stop q₂ _ took₂ => .pure fun _ => ?_
  obtain ⟨start₁, nonempty₁, stop₁⟩ := laid.places
  obtain ⟨start₂, nonempty₂, stop₂, -⟩ := took₂.places
  have upTo := went₁.inOrder.previous
  have parts : Span.InOrder e.span.start e.span.stop [e.span] :=
    .singleton (Nat.le_refl _) nonempty₁ (Nat.le_refl _)
  exact ⟨start₁, Nat.max_le.2 ⟨stop₂.ge, by omega⟩,
    .join parts (Nat.le_refl _) (by omega) (.inr (by omega)), laid.laidOut⟩

theorem lays_commaSeparatedParams :
    ∀ (fuel : Nat) (p : Parser), Lays p (commaSeparatedParams fuel) p (Param.AllLaid p)
  | 0, p => .pure fun _ => ⟨Nat.le_refl _, List.forall_mem_nil _, rfl⟩
  | fuel + 1, p => by
    refine (lays_expect (by decide) _ p).bind fun name q₁ _ took₁ => ?_
    refine (lays_expect (by decide) _ _).bind fun _ q₂ _ took₂ => ?_
    refine (lays_typeName _).bind fun type q₃ _ ⟨t, took₃, same⟩ => ?_
    refine (lays_freshId _).bind fun id q₄ _ ⟨previous, session, here⟩ => .kind ?_
    obtain ⟨start₁, nonempty₁, -, behind₁⟩ := took₁.places
    obtain ⟨start₂, nonempty₂, -, behind₂⟩ := took₂.places
    obtain ⟨start₃, nonempty₃, -, behind₃⟩ := took₃.places
    rw [← same] at start₃ nonempty₃ behind₃
    have silent := session.trans (took₃.session.trans (took₂.session.trans took₁.session))
    have parts : Span.InOrder type.span.start type.span.stop [type.span] :=
      .singleton (Nat.le_refl _) nonempty₃ (Nat.le_refl _)
    have holds : (name.span.join type.span).Holds [type.span] :=
      .join parts (by omega) (Nat.le_refl _) (.inl (by omega))
    have upTo : (name.span.join type.span).stop ≤ q₄.here := Nat.max_le.2 ⟨by omega, by omega⟩
    refine .ite (fun isComma => ?_) fun _ => .pure fun _ => ?_
    · refine (lays_advance (atEnd_eq_false_of_kind isComma (by decide))).bind
        fun _ q₅ went₅ took₅ => ?_
      refine (lays_commaSeparatedParams fuel q₅).bind fun ps q₆ _ others => .pure fun _ => ?_
      exact ⟨⟨start₁.le, holds.nonempty, others.inOrder.widen (upTo.trans went₅.here_le)
        (Nat.le_refl _)⟩, List.forall_mem_cons.2 ⟨holds, others.laidOut⟩,
        others.silent.trans (took₅.session.trans silent)⟩
    · exact ⟨.singleton start₁.le holds.nonempty upTo, List.forall_mem_singleton.2 holds, silent⟩

theorem lays_params (p : Parser) : Lays p params p (Param.AllLaid p) :=
  .kind (.ite (fun _ => .pure fun _ => ⟨Nat.le_refl _, List.forall_mem_nil _, rfl⟩)
    fun _ => lays_bounded (lays_commaSeparatedParams _ p))

/-! ## Blocks and the forms around them -/

/-- What is read by a parser of statements that always goes on. -/
def LaysStmt (inner : Parser → Stmt × Parser) : Prop :=
  ∀ p : Parser, p.InOrder → p.atEnd = false →
    p.Went (inner p).2.Stuck (inner p).2 ∧ (inner p).1.Laid p (inner p).2

/-- What is read by a parser of blocks. -/
def LaysBlock (blockOf : Parse Block) : Prop := ∀ p, Lays p blockOf p (Block.Laid p)

variable {inner : Parser → Stmt × Parser} {blockOf : Parse Block}

/-- Nothing is read where recovery stops. -/
theorem statements_of_stuck (h : p.Stuck) : ∀ fuel : Nat, statements inner fuel p = ([], p)
  | 0 => rfl
  | _ + 1 => if_pos h

/-- Statements of a block: the parser gets on after each, or is stuck and done. -/
theorem statements_laid (h : LaysStmt inner) :
    ∀ (fuel : Nat) {p : Parser}, p.InOrder →
      p.Went True (statements inner fuel p).2 ∧
        Span.InOrder p.here (statements inner fuel p).2.here
          ((statements inner fuel p).1.map Stmt.span) ∧
        Stmt.AllLaidOut (statements inner fuel p).1
  | 0, p, inOrder => ⟨.refl inOrder, Nat.le_refl _, trivial⟩
  | fuel + 1, p, inOrder => by
    rw [statements]
    split
    · exact ⟨.refl inOrder, Nat.le_refl _, trivial⟩
    next going =>
      have more : p.atEnd = false := Bool.eq_false_iff.2 fun atEnd => going (.inr atEnd)
      obtain ⟨went, laid⟩ := h p inOrder more
      obtain ⟨start, nonempty, stop⟩ := laid.places
      have upTo := stop.trans went.inOrder.previous
      by_cases stuck : (inner p).2.Stuck
      · simp only [statements_of_stuck stuck]
        exact ⟨went.imp fun _ => trivial, .singleton start nonempty upTo, laid.laidOut, trivial⟩
      · obtain ⟨went', inOrder', laidOut⟩ := statements_laid h fuel went.inOrder
        exact ⟨(went.imp stuck).trans went', ⟨start, nonempty,
          inOrder'.widen upTo (Nat.le_refl _)⟩, laid.laidOut, laidOut⟩

/-- The statements of a block are read whatever is in them. -/
theorem blockBody_laid (h : LaysStmt inner) (inOrder : p.InOrder) :
    ∃ body q, blockBody inner p = .ok body q ∧ p.Went True q ∧
      Span.InOrder p.here q.here (body.map Stmt.span) ∧ Stmt.AllLaidOut body := by
  have deeper : p.StandsAt { p with blockDepth := p.blockDepth + 1 } := ⟨rfl, rfl, rfl, rfl⟩
  obtain ⟨went, parts, laidOut⟩ := statements_laid h (p.remaining + 1) (deeper.inOrder inOrder)
  refine ⟨_, _, rfl, (went.beganAt deeper rfl).standsAt ⟨rfl, rfl, rfl, rfl⟩ rfl, parts, laidOut⟩

/-- What is found in a block stands behind its opening brace and before its closing one. -/
theorem laysBlock_block (h : LaysStmt inner) : LaysBlock (block inner) := by
  intro p
  refine .went fun went₀ => (lays_expect (by decide) _ p).bind fun opening q₁ _ took => ?_
  refine (lays_freshId q₁).bind fun id q₂ went₂ ⟨_, _, here⟩ went => ?_
  obtain ⟨start, nonempty, -, behind⟩ := took.places
  obtain ⟨body, q₃, read, inside, inOrder, laidOut⟩ := blockBody_laid h went₂.inOrder
  have on : p.Went True q₃ := went.trans inside
  have looked : currentKind q₃ = .ok q₃.current.kind q₃ := rfl
  rw [bind_eq_of_ok read, bind_eq_of_ok looked]
  by_cases atEnd : q₃.current.kind = .endOfInput
  · -- the opening brace is blamed, and nothing in the block stands there
    rw [if_pos atEnd]
    have cut : q₂.Went True { q₃ with reportedEnd := true } :=
      inside.standsAt ⟨rfl, rfl, rfl, rfl⟩ rfl
    have loud := (Went.refl went₀.inOrder).reportBetween took (went₂.trans cut)
      (.unterminated "block") rfl
    exact (went.trans cut).report (e := ⟨.unterminated "block", opening.span, q₃.reportedEnd⟩) loud
  · -- the closing brace is taken, whatever was found there
    rw [if_neg atEnd]
    have closing := inside.inOrder.took (beq_false_of_ne atEnd)
    obtain ⟨start₃, nonempty₃, stop₃, -⟩ := closing.places
    refine ⟨on.leave closing, start.le, Nat.max_le.2 ⟨stop₃.ge, ?_⟩, ?_, laidOut⟩
    · have upTo := inOrder.le
      omega
    · exact .join inOrder (by omega) (by omega) (.inl (by omega))

theorem lays_ifStatement (h : LaysBlock blockOf) :
    ∀ (fuel : Nat) {p : Parser}, p.atEnd = false →
      Lays p (ifStatement .standard blockOf fuel) p (Stmt.Laid p)
  | 0, p, _ => .unexpectedHere rfl
  | fuel + 1, p, more => by
    refine (lays_advance more).bind fun start q₁ _ took₁ => ?_
    refine (lays_condition q₁).bind fun test q₂ went₂ test_laid => ?_
    refine (h q₂).bind fun thenBlock q₃ went₃ then_laid => .kind ?_
    obtain ⟨start₁, nonempty₁, -, behind₁⟩ := took₁.places
    obtain ⟨start₂, nonempty₂, stop₂⟩ := test_laid.places
    obtain ⟨start₃, nonempty₃, stop₃⟩ := then_laid.places
    have upTo₂ := went₂.inOrder.previous
    have parts : Span.InOrder test.span.start thenBlock.span.stop [test.span, thenBlock.span] :=
      ⟨Nat.le_refl _, nonempty₂, by omega, nonempty₃, Nat.le_refl _⟩
    refine .ite (fun isElse => ?_) fun _ => ?_
    · refine (lays_advance (atEnd_eq_false_of_kind isElse (by decide))).bind
        fun _ q₄ went₄ _ => .kind ?_
      have upTo₃ := went₃.inOrder.previous
      have onward := went₄.here_le
      have close : ∀ (elseBranch : Stmt) (q : Parser), q₄.Went False q → elseBranch.Laid q₄ q →
          Lays p (do
            return Stmt.ifThenElse (start.span.join (← previousSpan)) test thenBlock elseBranch) q
            (Stmt.Laid p) := by
        intro elseBranch q _ else_laid
        obtain ⟨start₄, nonempty₄, stop₄⟩ := else_laid.places
        have last : Span.InOrder q₄.here elseBranch.span.stop [elseBranch.span] :=
          .singleton start₄ nonempty₄ (Nat.le_refl _)
        have all := (parts.widen (Nat.le_refl _) (by omega)).append last
        refine .lastSpan (.pure fun _ => ⟨start₁.le, Nat.max_le.2 ⟨Nat.le_refl _, by omega⟩, ?_⟩)
        exact ⟨.join all (by omega) stop₄ (.inl (by omega)), test_laid.laidOut, then_laid.laidOut,
          else_laid.laidOut⟩
      refine .ite (fun isIf => ?_) fun _ => ?_
      · exact (lays_ifStatement h fuel (atEnd_eq_false_of_kind isIf (by decide))).bind close
      · have elseBlock : Lays q₄ (Stmt.block <$> blockOf) q₄ (Stmt.Laid q₄) :=
          .map ((h q₄).imp fun b q _ laid => ⟨laid.start, laid.stop, laid.laidOut⟩)
        exact elseBlock.bind close
    · refine .lastSpan (.pure fun _ => ⟨start₁.le, Nat.max_le.2 ⟨Nat.le_refl _, by omega⟩, ?_⟩)
      exact ⟨.join parts (by omega) stop₃ (.inl (by omega)), test_laid.laidOut, then_laid.laidOut⟩

theorem lays_whileStatement (h : LaysBlock blockOf) (more : p.atEnd = false) :
    Lays p (whileStatement .standard blockOf) p (Stmt.Laid p) := by
  refine (lays_advance more).bind fun start q₁ _ took₁ => ?_
  refine (lays_condition q₁).bind fun test q₂ went₂ test_laid => ?_
  refine (h q₂).bind fun body q₃ _ body_laid => .pure fun _ => ?_
  obtain ⟨start₁, nonempty₁, -, behind₁⟩ := took₁.places
  obtain ⟨start₂, nonempty₂, stop₂⟩ := test_laid.places
  obtain ⟨start₃, nonempty₃, stop₃⟩ := body_laid.places
  have upTo₂ := went₂.inOrder.previous
  have parts : Span.InOrder test.span.start body.span.stop [test.span, body.span] :=
    ⟨Nat.le_refl _, nonempty₂, by omega, nonempty₃, Nat.le_refl _⟩
  exact ⟨start₁.le, Nat.max_le.2 ⟨stop₃, by omega⟩,
    .join parts (by omega) (Nat.le_refl _) (.inl (by omega)), test_laid.laidOut, body_laid.laidOut⟩

/-- If a function is blamed for being in a block, nothing else is found at its name. -/
theorem lays_functionStatement (h : LaysBlock blockOf) (more : p.atEnd = false) :
    Lays p (functionStatement blockOf) p (Stmt.Laid p) := by
  refine (lays_advance more).bind fun start q₁ went₁ took₁ => ?_
  refine (lays_expect (by decide) _ _).bind fun name q₂ _ took₂ => ?_
  refine (lays_expect (by decide) _ _).bind fun opening q₃ went₃ took₃ => ?_
  refine (lays_params _).bind fun parameters q₄ went₄ params_laid => ?_
  obtain ⟨start₁, nonempty₁, -, behind₁⟩ := took₁.places
  obtain ⟨start₂, nonempty₂, -, behind₂⟩ := took₂.places
  obtain ⟨start₃, nonempty₃, -, behind₃⟩ := took₃.places
  have onward := params_laid.inOrder.le
  have silent := params_laid.silent.trans
    (took₃.session.trans (took₂.session.trans took₁.session))
  refine .bindFrom (lays_expectClosing (by decide) _ _ silent (by omega) (by omega))
    fun _ q₅ took₅ => ?_
  refine (lays_typeAfter (by decide) _).bind fun returnType q₆ went₆ ⟨types, _⟩ => .depth ?_
  refine (h q₆).bind fun body q₇ went₇ body_laid => ?_
  have onward₅ := took₅.went.here_le
  have onward₆ := types.le
  obtain ⟨start₇, nonempty₇, stop₇⟩ := body_laid.places
  have ends : (start.span.join body.span).stop ≤ q₇.previousSpan.stop :=
    Nat.max_le.2 ⟨stop₇, by omega⟩
  refine .ite (fun _ => ?_) fun _ => ?_
  · have behind : q₂.Went False q₇ :=
      went₃.trans (went₄.trans (took₅.went.trans (went₆.trans went₇)))
    have complained : Lays p (complain (.nestedFunction name.text) name.span) q₇
        fun _ q => q.previousSpan = q₇.previousSpan :=
      fun _ => ⟨went₁.reportBetween took₂ behind (.nestedFunction name.text) rfl, rfl⟩
    refine .bindFrom complained fun _ q₈ previous => .pure fun _ => ⟨start₁.le, ?_, .leaf ?_⟩
    · rw [previous]
      exact ends
    · rw [Span.join_start, Span.join_stop]
      omega
  · have parts : Span.InOrder name.span.start body.span.stop
        (name.span :: parameters.map Param.span ++ (returnType.map WrittenType.span).toList ++
          [body.span]) :=
      ⟨Nat.le_refl _, nonempty₂, ((params_laid.inOrder.widen (by omega) onward₅).append
        types).append (.singleton start₇ nonempty₇ (Nat.le_refl _))⟩
    refine (lays_freshId _).bind fun id q₈ _ ⟨previous, _, _⟩ => .pure fun _ => ?_
    refine ⟨start₁.le, ?_, .join parts (by omega) (Nat.le_refl _) (.inl (by omega)),
      params_laid.laidOut, body_laid.laidOut⟩
    rw [previous]
    exact ends

theorem lays_statementForm (h : LaysStmt inner) (rule : StatementRule) (more : p.atEnd = false) :
    Lays p (statementForm .standard inner rule) p (Stmt.Laid p) := by
  have blocks := laysBlock_block h
  cases rule with
  | letVar => exact lays_letStatement p more
  | ifElse => exact lays_bounded (lays_ifStatement blocks _ more)
  | whileLoop => exact lays_whileStatement blocks more
  | block => exact .map ((blocks p).imp fun _ _ _ laid => ⟨laid.start, laid.stop, laid.laidOut⟩)
  | function => exact lays_functionStatement blocks more
  | ret => exact lays_returnStatement more

theorem lays_statementWith (h : LaysStmt inner) (p : Parser) :
    Lays p (statementWith .standard inner) p (Stmt.Laid p) := by
  refine .kind ?_
  split
  next rule is =>
    refine lays_statementForm h rule (atEnd_eq_false_of_kind rfl fun atEnd => ?_)
    rw [atEnd] at is
    cases is
  next => exact lays_expressionStatement p

/-! ## Recovery -/

/-- Skipping takes tokens and finds nothing. -/
theorem passed_synchronizeFrom : ∀ (fuel depth : Nat) {p : Parser}, p.InOrder →
    p.Passed (p.synchronizeFrom fuel depth) ∧ (p.synchronizeFrom fuel depth).session = p.session
  | 0, _, p, inOrder => ⟨.refl inOrder, rfl⟩
  | fuel + 1, depth, p, inOrder => by
    have one : p.Passed p.advance ∧ p.advance.session = p.session :=
      ⟨.advance inOrder, inOrder.session_advance⟩
    have next : ∀ depth, p.Passed (p.advance.synchronizeFrom fuel depth) ∧
        (p.advance.synchronizeFrom fuel depth).session = p.session := fun depth => by
      obtain ⟨passed, session⟩ := passed_synchronizeFrom fuel depth one.1.inOrder
      exact ⟨one.1.trans passed, session.trans one.2⟩
    unfold Parser.synchronizeFrom
    split
    · exact ⟨.refl inOrder, rfl⟩
    · split
      · exact one
      · exact next depth
    · exact next (depth + 1)
    · split
      · exact ⟨.refl inOrder, rfl⟩
      · exact one
      · exact next _
    · exact next depth

/-- Skipping that takes no token is stuck. -/
theorem stuck_of_synchronize (inOrder : p.InOrder)
    (still : p.synchronize.consumed = p.consumed) : p.synchronize.Stuck := by
  by_cases stuck : p.Stuck
  · have same : p.synchronize = p := by
      unfold Parser.synchronize Parser.synchronizeFrom
      rcases stuck with brace | atEnd
      · rw [brace]
      · rw [beq_iff_eq.1 atEnd]
    rw [same]
    exact stuck
  · have more : p.atEnd = false := Bool.eq_false_iff.2 fun atEnd => stuck (.inr atEnd)
    have took := (inOrder.took more).consumed
    have next : ∀ depth, p.advance.consumed ≤
        (p.advance.synchronizeFrom p.remaining depth).consumed := fun depth =>
      (passed_synchronizeFrom _ depth inOrder.advance).1.consumed
    have on : p.advance.consumed ≤ p.synchronize.consumed := by
      unfold Parser.synchronize Parser.synchronizeFrom
      split
      next atEnd => exact absurd (.inr (beq_iff_eq.2 atEnd)) stuck
      · exact Nat.le_refl _
      · exact next _
      next brace => exact absurd (.inl brace) stuck
      · exact next _
    omega

/-- Recovery gets behind where it began, and leaves behind what was found unless it is stuck. -/
theorem recover_laid {e : SyntaxError} {failed : Parser} (inOrder : p.InOrder)
    (more : p.atEnd = false) (went : p.Went True (failed.report e)) :
    p.Went (recover p e failed).2.Stuck (recover p e failed).2 ∧
      (recover p e failed).1.Laid p (recover p e failed).2 := by
  obtain ⟨on, silent⟩ := passed_synchronizeFrom ((failed.report e).remaining + 1) 0 went.inOrder
  have skipped : p.Went (failed.report e).synchronize.Stuck (failed.report e).synchronize :=
    went.skip on silent fun same _ => stuck_of_synchronize went.inOrder same
  have nonempty := inOrder.nonempty more
  -- wherever recovery stops, it has taken the token at which the statement begins
  have placed : ∀ q : Parser, p.Passed q → p.consumed < q.consumed →
      (Stmt.error (p.current.span.join q.previousSpan)).Laid p q := by
    intro q passed taken
    obtain ⟨-, upTo⟩ := passed.took taken
    refine ⟨Nat.le_refl _, Nat.max_le.2 ⟨Nat.le_refl _, upTo⟩, .leaf ?_⟩
    rw [Span.join_start, Span.join_stop]
    exact nonempty.trans_le (Nat.le_max_right ..)
  unfold recover
  simp only
  split
  next same =>
    have atSame := skipped.stayed same
    have took := skipped.inOrder.took (by rw [Parser.atEnd, atSame]; exact more)
    have left : p.Went False (failed.report e).synchronize.advance := skipped.leave took
    have taken := took.consumed
    exact ⟨left.imp False.elim, placed _ left.toPassed (by omega)⟩
  next moved =>
    have taken := skipped.consumed
    exact ⟨skipped, placed _ skipped.toPassed (by omega)⟩

/-- A parser of statements that recovers. -/
theorem recovering_laid {action : Parse Stmt} (inOrder : p.InOrder) (more : p.atEnd = false)
    (h : Lays p action p (Stmt.Laid p)) :
    p.Went (recovering action p).2.Stuck (recovering action p).2 ∧
      (recovering action p).1.Laid p (recovering action p).2 := by
  have result := h (.refl inOrder)
  unfold recovering
  cases outcome : action p with
  | ok s q =>
    rw [outcome] at result
    exact ⟨result.1.imp False.elim, result.2⟩
  | error e q =>
    rw [outcome] at result
    exact recover_laid inOrder more result

theorem laysStmt_statementOrErrorFrom :
    ∀ fuel : Nat, LaysStmt (statementOrErrorFrom .standard fuel)
  | 0, p, inOrder, more => by
    have took := inOrder.took more
    obtain ⟨start, nonempty, stop, -⟩ := took.places
    exact ⟨took.went.imp False.elim, start.le, stop.ge, .leaf nonempty⟩
  | fuel + 1, p, inOrder, more =>
    recovering_laid inOrder more (lays_statementWith (laysStmt_statementOrErrorFrom fuel) p)

end Parse

end MiniLang
