import MiniLang.Proofs.Syntax.Parser.Order.Logic

/-!
# Where expressions stand

An expression that is read stands in the part of the text that the parser went through, with all of
its parts in order, and nothing is found on the way (`Expr.Laid`). The forms keep this, given that
the expressions inside them do, and the loops around the forms keep it by induction on their rounds
(`lays_expression`).
-/

set_option autoImplicit false

namespace MiniLang

open MiniLang.Parser

/-- An expression was read on the way from one parser to another. -/
structure Expr.Laid (p : Parser) (e : Expr) (q : Parser) : Prop where
  start : p.here ≤ e.span.start
  stop : e.span.stop ≤ q.previousSpan.stop
  laidOut : e.LaidOut
  silent : q.session = p.session

/-- An expression that was read stands between the two places. -/
theorem Expr.Laid.places {p q : Parser} {e : Expr} (h : e.Laid p q) :
    p.here ≤ e.span.start ∧ e.span.start < e.span.stop ∧ e.span.stop ≤ q.previousSpan.stop :=
  ⟨h.start, h.laidOut.nonempty, h.stop⟩

/-- Expressions were read on the way from one parser to another. -/
structure Expr.AllLaid (p : Parser) (es : List Expr) (q : Parser) : Prop where
  inOrder : Span.InOrder p.here q.here (es.map Expr.span)
  laidOut : Expr.AllLaidOut es
  silent : q.session = p.session

namespace Parse

/-- What is read by a parser of expressions. -/
def LaysExpr (inner : ExprParser) : Prop := ∀ power p, Lays p (inner power) p (Expr.Laid p)

variable {inner : ExprParser} {p₀ p : Parser}

/-- An expression whose number is drawn last. -/
theorem lays_node {e : NodeId → Expr} (laidOut : ∀ id, (e id).LaidOut)
    (start : ∀ id, p₀.here ≤ (e id).span.start)
    (stop : ∀ id, (e id).span.stop ≤ p.previousSpan.stop) (silent : p.session = p₀.session) :
    Lays p₀ (do return e (← freshId)) p (Expr.Laid p₀) :=
  (lays_freshId p).bind fun id _ _ ⟨previous, session, _⟩ => .pure fun _ =>
    ⟨start id, previous ▸ stop id, laidOut id, session.trans silent⟩

theorem lays_literal (more : p.atEnd = false) : Lays p literal p (Expr.Laid p) := by
  refine .went fun went₀ => (lays_advance more).bind fun token q went took => ?_
  have hasValue := went₀.inOrder.current.hasValue
  have node : ∀ value : Literal, Lays p (do return .literal (← freshId) token.span value) q
      (Expr.Laid p) := fun value =>
    lays_node (fun _ => .leaf took.nonempty) (fun _ => took.here.le)
      (fun _ => took.places.2.2.1.ge) took.session
  obtain ⟨start, nonempty, stop, behind⟩ := took.places
  split
  next is =>
    split
    · exact node _
    next none =>
      have value := hasValue (took.token ▸ is)
      rw [← took.token, none] at value
      cases value
  · exact node _
  · exact node _
  · refine .bindFrom (.fail took.session rfl start.le ?_) fun _ _ h => h
    change token.span.start ≤ q.here
    omega

theorem lays_commaSeparated (h : LaysExpr inner) :
    ∀ (fuel : Nat) (p : Parser), Lays p (commaSeparated inner fuel) p (Expr.AllLaid p)
  | 0, p => .pure fun _ => ⟨Nat.le_refl _, trivial, rfl⟩
  | fuel + 1, p => by
    refine (h .default p).bind fun first q went laid => .kind ?_
    have upTo := laid.stop.trans went.inOrder.previous
    refine .ite (fun isComma => ?_) fun _ => .pure fun _ => ?_
    · refine (lays_advance (atEnd_eq_false_of_kind isComma (by decide))).bind
        fun _ q₁ went₁ took => ?_
      have onward := went₁.here_le
      refine (lays_commaSeparated h fuel q₁).bind fun rest q₂ went₂ others => .pure fun _ => ?_
      exact ⟨⟨laid.start, laid.laidOut.nonempty,
        others.inOrder.widen (upTo.trans onward) (Nat.le_refl _)⟩, ⟨laid.laidOut, others.laidOut⟩,
        others.silent.trans (took.session.trans laid.silent)⟩
    · exact ⟨.singleton laid.start laid.laidOut.nonempty upTo, ⟨laid.laidOut, trivial⟩, laid.silent⟩

theorem lays_arguments (h : LaysExpr inner) (p : Parser) :
    Lays p (arguments inner) p (Expr.AllLaid p) :=
  .kind (.ite (fun _ => .pure fun _ => ⟨Nat.le_refl _, trivial, rfl⟩)
    fun _ => lays_bounded (lays_commaSeparated h _ p))

theorem lays_nameOrCall (h : LaysExpr inner) (more : p.atEnd = false) :
    Lays p (nameOrCall inner) p (Expr.Laid p) := by
  refine (lays_advance more).bind fun name q went took =>
    .kind (.ite (fun isOpen => ?_) fun _ => ?_)
  · refine (lays_advance (atEnd_eq_false_of_kind isOpen (by decide))).bind
      fun opening q₁ went₁ took₁ => ?_
    refine (lays_arguments h q₁).bind fun values q₂ went₂ laid => ?_
    obtain ⟨start, nonempty, stop, behind⟩ := took.places
    obtain ⟨start₁, nonempty₁, stop₁, behind₁⟩ := took₁.places
    have onward := went₂.here_le
    have silent : q₂.session = p.session := laid.silent.trans (took₁.session.trans took.session)
    refine .bindFrom (lays_expectClosing (by decide) _ _ silent (by omega) (by omega))
      fun closing q₃ took₃ => ?_
    obtain ⟨start₃, nonempty₃, stop₃, -⟩ := took₃.places
    have parts : Span.InOrder name.span.start q₂.here (name.span :: values.map Expr.span) :=
      ⟨Nat.le_refl _, nonempty, laid.inOrder.widen (by omega) (Nat.le_refl _)⟩
    exact lays_node (fun _ => ⟨.join parts (Nat.le_refl _) (by omega) (.inr (by omega)),
      laid.laidOut⟩) (fun _ => start.le) (fun _ => Nat.max_le.2 ⟨stop₃.ge, by omega⟩)
      (took₃.session.trans silent)
  · exact lays_node (fun _ => .leaf took.nonempty) (fun _ => took.here.le)
      (fun _ => took.places.2.2.1.ge) took.session

theorem lays_unaryOperation (h : LaysExpr inner) (more : p.atEnd = false) :
    Lays p (unaryOperation inner) p (Expr.Laid p) := by
  refine (lays_advance more).bind fun operator q went took => ?_
  refine (h .unary q).bind fun operand q₁ went₁ laid => ?_
  obtain ⟨start, nonempty, stop, behind⟩ := took.places
  obtain ⟨start₁, nonempty₁, stop₁⟩ := laid.places
  have parts : Span.InOrder q.here operand.span.stop [operand.span] :=
    .singleton start₁ nonempty₁ (Nat.le_refl _)
  exact lays_node (fun _ => ⟨.join parts (by omega) (Nat.le_refl _) (.inl (by omega)),
    laid.laidOut⟩) (fun _ => start.le) (fun _ => Nat.max_le.2 ⟨stop₁, by omega⟩)
    (laid.silent.trans took.session)

theorem lays_grouping (h : LaysExpr inner) (more : p.atEnd = false) :
    Lays p (grouping inner) p (Expr.Laid p) := by
  refine (lays_advance more).bind fun opening q went took => ?_
  refine (h .default q).bind fun e q₁ went₁ laid => ?_
  obtain ⟨start, nonempty, stop, behind⟩ := took.places
  have onward := went₁.here_le
  have silent := laid.silent.trans took.session
  refine .bindFrom (lays_expectClosing (by decide) _ _ silent (by omega) (by omega))
    fun _ q₂ took₂ => .pure fun _ => ?_
  have behind₂ := took₂.went.previous
  exact ⟨by have := laid.start; omega, laid.stop.trans behind₂, laid.laidOut,
    took₂.session.trans silent⟩

/-- Text that forms no token. -/
theorem lays_unknown (more : p.atEnd = false) : Lays p unknown p (Expr.Laid p) := by
  refine (lays_advance more).bind fun token q _ took => .fail took.session rfl took.here.le ?_
  exact took.nonempty.le.trans took.places.2.2.2

theorem lays_prefixForm (h : LaysExpr inner) (rule : PrefixRule) (more : p.atEnd = false) :
    Lays p (prefixForm inner rule) p (Expr.Laid p) := by
  cases rule with
  | literal => exact lays_literal more
  | name => exact lays_nameOrCall h more
  | operator => exact lays_unaryOperation h more
  | grouping => exact lays_grouping h more
  | unknown => exact lays_unknown more

theorem lays_binaryOperation (h : LaysExpr inner) (power : BindingPower) {left : Expr}
    (laid : left.Laid p₀ p) (more : p.atEnd = false) :
    Lays p₀ (binaryOperation inner power left) p (Expr.Laid p₀) := by
  refine .went fun went₀ => (lays_advance more).bind fun operator q went took => ?_
  have before := went₀.inOrder.previous
  obtain ⟨start₀, nonempty₀, stop₀⟩ := laid.places
  obtain ⟨start, nonempty, stop, behind⟩ := took.places
  have silent := took.session.trans laid.silent
  split
  · refine .fail silent rfl ?_ ?_
    · change p₀.here ≤ operator.span.start
      omega
    · change operator.span.start ≤ q.here
      omega
  · refine (h power q).bind fun right q₁ went₁ laid₁ => ?_
    obtain ⟨start₁, nonempty₁, stop₁⟩ := laid₁.places
    exact lays_node (fun _ => ⟨.pair nonempty₀ (by omega) nonempty₁, laid.laidOut, laid₁.laidOut⟩)
      (fun _ => start₀) (fun _ => Nat.max_le.2 ⟨stop₁, by omega⟩) (laid₁.silent.trans silent)

theorem lays_assignment (h : LaysExpr inner) {left : Expr} (laid : left.Laid p₀ p)
    (more : p.atEnd = false) : Lays p₀ (assignment inner left) p (Expr.Laid p₀) := by
  refine .went fun went₀ => (lays_advance more).bind fun _ q went took => ?_
  have before := went₀.inOrder.previous
  obtain ⟨start₀, nonempty₀, stop₀⟩ := laid.places
  obtain ⟨start, nonempty, stop, behind⟩ := took.places
  have silent := took.session.trans laid.silent
  refine (h .default q).bind fun value q₁ went₁ laid₁ => ?_
  have onward := went₁.here_le
  obtain ⟨start₁, nonempty₁, stop₁⟩ := laid₁.places
  split
  next id span name =>
    change span.start < span.stop at nonempty₀
    change span.stop ≤ p.previousSpan.stop at stop₀
    exact lays_node (fun _ => ⟨.pair nonempty₀ (by omega) nonempty₁, laid₁.laidOut⟩)
      (fun _ => start₀) (fun _ => Nat.max_le.2 ⟨stop₁, by omega⟩) (laid₁.silent.trans silent)
  next => exact .fail (laid₁.silent.trans silent) rfl start₀ (by simp only; omega)

theorem lays_infixForm (h : LaysExpr inner) (power : BindingPower) (rule : InfixRule)
    {left : Expr} (laid : left.Laid p₀ p) (more : p.atEnd = false) :
    Lays p₀ (infixForm inner power left rule) p (Expr.Laid p₀) := by
  cases rule with
  | operator => exact lays_binaryOperation h power laid more
  | assignment => exact lays_assignment h laid more

/-- No form begins or goes on at the end of the input. -/
theorem atEnd_eq_false_of_prefixRule {rule : PrefixRule}
    (is : Grammar.standard.prefixRule p.current.kind = some rule) : p.atEnd = false :=
  atEnd_eq_false_of_kind rfl fun atEnd => by
    rw [atEnd] at is
    cases is

theorem atEnd_eq_false_of_infixRule {rule : BindingPower × InfixRule}
    (is : Grammar.standard.infixRule p.current.kind = some rule) : p.atEnd = false :=
  atEnd_eq_false_of_kind rfl fun atEnd => by
    rw [atEnd] at is
    cases is

theorem lays_extend (h : LaysExpr inner) (power : BindingPower) :
    ∀ (fuel : Nat) {left : Expr} {p : Parser}, left.Laid p₀ p →
      Lays p₀ (extend .standard inner power fuel left) p (Expr.Laid p₀)
  | 0, left, p, laid => .pure fun _ => laid
  | fuel + 1, left, p, laid => by
    refine .kind ?_
    split
    · exact .pure fun _ => laid
    next own rule is =>
      refine .ite (fun _ => .pure fun _ => laid) fun _ => ?_
      exact .bindFrom (lays_infixForm h own rule laid (atEnd_eq_false_of_infixRule is))
        fun e q laid' => lays_extend h power fuel laid'

theorem laysExpr_expressionFrom : ∀ fuel : Nat, LaysExpr (expressionFrom .standard fuel)
  | 0, power, p => .unexpectedHere rfl
  | fuel + 1, power, p => by
    have ih := laysExpr_expressionFrom fuel
    refine .kind ?_
    split
    · exact .unexpectedHere rfl
    next rule is =>
      exact .bindFrom (lays_prefixForm ih rule (atEnd_eq_false_of_prefixRule is))
        fun left q laid => lays_bounded (lays_extend ih power _ laid)

/-- An expression stands where it was read. -/
theorem lays_expression (power : BindingPower) (p : Parser) :
    Lays p (expression .standard power) p (Expr.Laid p) :=
  lays_bounded (laysExpr_expressionFrom _ power p)

end Parse

end MiniLang
