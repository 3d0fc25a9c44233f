import MiniLang.Proofs.Syntax.Nodes
import MiniLang.Proofs.Syntax.Parser.Logic

/-!
# What expressions are read

An expression that is read has a place and nodes with numbers of their own, drawn while it was read,
those of operands before those of their operators (`Expr.Read`). The forms keep this, given that the
expressions inside them do, and the loops around the forms keep it by induction on their rounds
(`yields_expression`).
-/

set_option autoImplicit false

namespace MiniLang

theorem Span.Valid.join {a : Span} (h : a.Valid) (b : Span) : (a.join b).Valid :=
  ⟨h.1, h.2.1, h.2.2.trans (Nat.le_max_right ..)⟩

/-- An expression was read by a parser that drew its numbers from `lo` on. -/
structure Expr.Read (lo : NodeId) (e : Expr) (q : Parser) : Prop where
  valid : e.span.Valid
  numbered : Numbered lo q.nextId e.preorder
  last : ∀ sub ∈ e.nodes, sub.DrawnLast

/-- Expressions were read by a parser that drew its numbers from `lo` on. -/
structure Expr.ReadAll (lo : NodeId) (es : List Expr) (q : Parser) : Prop where
  numbered : Numbered lo q.nextId (Expr.preorderAll es)
  last : ∀ sub ∈ Expr.nodesAll es, sub.DrawnLast

theorem Expr.ReadAll.nil (lo : NodeId) (q : Parser) : Expr.ReadAll lo [] q :=
  ⟨.nil .., List.forall_mem_nil _⟩

namespace Parse

/-- What is read by a parser of expressions. -/
def ReadsExpr (inner : ExprParser) : Prop :=
  ∀ power p, Yields (inner power) p (Expr.Read p.nextId)

variable {inner : ExprParser}

/-- The number of a node drawn after everything below the node. -/
theorem yields_node {p : Parser} {lo : NodeId} {e : NodeId → Expr} {ids : List NodeId}
    {below : List Expr} (preorder : ∀ id, (e id).preorder = id :: ids)
    (nodes : ∀ id, (e id).nodes = e id :: below) (valid : ∀ id, (e id).span.Valid)
    (numbered : Numbered lo p.nextId ids) (last : ∀ sub ∈ below, sub.DrawnLast)
    (le : lo ≤ p.nextId) :
    Yields (do return e (← freshId)) p (Expr.Read lo) := by
  refine (yields_freshId p).bind fun id q _ ⟨same, next, _⟩ => .pure fun _ => ⟨valid id, ?_, ?_⟩
  · rw [preorder, next, same]
    exact numbered.cons_last le
  · rw [nodes]
    refine List.forall_mem_cons.2 ⟨fun other mem => ?_, last⟩
    have own : (e id).id = id := by
      have root := (e id).head?_preorder
      rw [preorder] at root
      exact (Option.some.inj root).symm
    rw [preorder] at mem
    rw [own, same]
    exact (numbered.within other mem).2

theorem yields_literal (p : Parser) : Yields literal p (Expr.Read p.nextId) := by
  refine (yields_advance p).bind fun token q moves taken => ?_
  have node : ∀ value : Literal, Yields (do return .literal (← freshId) token.span value) q
      (Expr.Read p.nextId) := fun value =>
    yields_node (fun _ => rfl) (fun _ => rfl) (fun _ => taken.fit.valid) (Numbered.nil ..)
      (List.forall_mem_nil _) moves.nextId
  split
  · split
    · exact node _
    · exact .bind (.fail (fun silent => by cases silent) rfl) fun _ _ _ h => h
  · exact node _
  · exact node _
  · exact .bind (.unexpected taken.unknown) fun _ _ _ h => h

theorem yields_commaSeparated (h : ReadsExpr inner) :
    ∀ (fuel : Nat) (p : Parser), Yields (commaSeparated inner fuel) p (Expr.ReadAll p.nextId)
  | 0, p => .pure fun _ => .nil _ _
  | fuel + 1, p => by
    refine (h .default p).bind fun first q moves read => .kind ?_
    refine .ite (fun _ => ?_) fun _ => ?_
    · refine (yields_advance q).bind fun _ r moves₁ _ => ?_
      refine (yields_commaSeparated h fuel r).bind fun rest r₁ moves₂ others => .pure fun _ => ?_
      have numbered := (read.numbered.widen le_rfl moves₁.nextId).append others.numbered
        (moves.nextId.trans moves₁.nextId) moves₂.nextId
      exact ⟨numbered, List.forall_mem_append.2 ⟨read.last, others.last⟩⟩
    · refine .pure fun _ => ⟨?_, ?_⟩
      · rw [Expr.preorderAll, Expr.preorderAll, List.append_nil]
        exact read.numbered
      · rw [Expr.nodesAll, Expr.nodesAll, List.append_nil]
        exact read.last

theorem yields_arguments (h : ReadsExpr inner) (p : Parser) :
    Yields (arguments inner) p (Expr.ReadAll p.nextId) :=
  .kind (.ite (fun _ => .pure fun _ => .nil _ _)
    fun _ => yields_bounded (yields_commaSeparated h _ p))

theorem yields_nameOrCall (h : ReadsExpr inner) (p : Parser) :
    Yields (nameOrCall inner) p (Expr.Read p.nextId) := by
  refine (yields_advance p).bind fun name q moves taken => .kind (.ite (fun _ => ?_) fun _ => ?_)
  · refine (yields_advance q).bind fun opening q₁ moves₁ _ => ?_
    refine (yields_arguments h q₁).bind fun values q₂ moves₂ read => ?_
    refine (yields_expectClosing _ _ _ _ _).bind fun closing q₃ moves₃ _ => ?_
    have start := moves.nextId.trans moves₁.nextId
    exact yields_node (fun _ => rfl) (fun _ => rfl) (fun _ => taken.fit.valid.join _)
      (read.numbered.widen start moves₃.nextId) read.last
      (start.trans (moves₂.nextId.trans moves₃.nextId))
  · exact yields_node (fun _ => rfl) (fun _ => rfl) (fun _ => taken.fit.valid) (.nil ..)
      (List.forall_mem_nil _) moves.nextId

theorem yields_unaryOperation (h : ReadsExpr inner) (p : Parser) :
    Yields (unaryOperation inner) p (Expr.Read p.nextId) := by
  refine (yields_advance p).bind fun operator q moves taken => ?_
  refine (h .unary q).bind fun operand r moves₁ read => ?_
  exact yields_node (fun _ => rfl) (fun _ => rfl) (fun _ => taken.fit.valid.join _)
    (read.numbered.widen moves.nextId le_rfl) read.last (moves.nextId.trans moves₁.nextId)

theorem yields_grouping (h : ReadsExpr inner) (p : Parser) :
    Yields (grouping inner) p (Expr.Read p.nextId) := by
  refine (yields_advance p).bind fun opening q moves _ => ?_
  refine (h .default q).bind fun e r moves₁ read => ?_
  refine (yields_expectClosing _ _ _ _ _).bind fun _ r₁ moves₂ _ => .pure fun _ => ?_
  exact ⟨read.valid, read.numbered.widen moves.nextId moves₂.nextId, read.last⟩

theorem yields_prefixForm (h : ReadsExpr inner) (rule : PrefixRule) (p : Parser) :
    Yields (prefixForm inner rule) p (Expr.Read p.nextId) := by
  cases rule with
  | literal => exact yields_literal p
  | name => exact yields_nameOrCall h p
  | operator => exact yields_unaryOperation h p
  | grouping => exact yields_grouping h p
  | unknown => exact (yields_advance p).bind fun _ _ _ taken => .unexpected taken.unknown

theorem yields_binaryOperation (h : ReadsExpr inner) (power : BindingPower) {left : Expr}
    {lo : NodeId} {p : Parser} (read : left.Read lo p) (le : lo ≤ p.nextId) :
    Yields (binaryOperation inner power left) p (Expr.Read lo) := by
  refine (yields_advance p).bind fun operator q moves taken => ?_
  split
  · exact .unexpected taken.unknown
  · refine (h power q).bind fun right r moves₁ read₁ => ?_
    have numbered := (read.numbered.widen le_rfl moves.nextId).append read₁.numbered
      (le.trans moves.nextId) moves₁.nextId
    exact yields_node (fun _ => rfl) (fun _ => rfl) (fun _ => read.valid.join _) numbered
      (List.forall_mem_append.2 ⟨read.last, read₁.last⟩)
      (le.trans (moves.nextId.trans moves₁.nextId))

theorem yields_assignment (h : ReadsExpr inner) {left : Expr} {lo : NodeId} {p : Parser}
    (read : left.Read lo p) (le : lo ≤ p.nextId) :
    Yields (assignment inner left) p (Expr.Read lo) := by
  refine (yields_advance p).bind fun _ q moves _ => ?_
  refine (h .default q).bind fun value r moves₁ read₁ => ?_
  split
  next id span name =>
    exact yields_node (fun _ => rfl) (fun _ => rfl) (fun _ => Span.Valid.join read.valid _)
      (read₁.numbered.widen (le.trans moves.nextId) le_rfl) read₁.last
      (le.trans (moves.nextId.trans moves₁.nextId))
  next => exact .fail (fun silent => by cases silent) rfl

theorem yields_infixForm (h : ReadsExpr inner) (power : BindingPower) (rule : InfixRule)
    {left : Expr} {lo : NodeId} {p : Parser} (read : left.Read lo p) (le : lo ≤ p.nextId) :
    Yields (infixForm inner power left rule) p (Expr.Read lo) := by
  cases rule with
  | operator => exact yields_binaryOperation h power read le
  | assignment => exact yields_assignment h read le

theorem yields_extend (g : Grammar) (h : ReadsExpr inner) (power : BindingPower) :
    ∀ (fuel : Nat) {left : Expr} {lo : NodeId} {p : Parser}, left.Read lo p → lo ≤ p.nextId →
      Yields (extend g inner power fuel left) p (Expr.Read lo)
  | 0, left, lo, p, read, le => .pure fun _ => read
  | fuel + 1, left, lo, p, read, le => by
    refine .kind ?_
    split
    · exact .pure fun _ => read
    next own rule _ =>
      refine .ite (fun _ => .pure fun _ => read) fun _ => ?_
      exact (yields_infixForm h own rule read le).bind fun e q moves read₁ =>
        yields_extend g h power fuel read₁ (le.trans moves.nextId)

theorem readsExpr_expressionFrom (g : Grammar) : ∀ fuel : Nat, ReadsExpr (expressionFrom g fuel)
  | 0, power, p => .unexpectedHere rfl
  | fuel + 1, power, p => by
    have ih := readsExpr_expressionFrom g fuel
    refine .kind ?_
    split
    · exact .unexpectedHere rfl
    next rule _ =>
      refine (yields_prefixForm ih rule p).bind fun left q moves read => ?_
      exact yields_bounded (yields_extend g ih power _ read moves.nextId)

/-- An expression that is read has a place and nodes with numbers of their own. -/
theorem yields_expression (g : Grammar) (power : BindingPower) (p : Parser) :
    Yields (expression g power) p (Expr.Read p.nextId) :=
  yields_bounded (readsExpr_expressionFrom g _ power p)

end Parse

end MiniLang
