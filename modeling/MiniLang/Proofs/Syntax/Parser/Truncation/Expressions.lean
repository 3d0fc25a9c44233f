import MiniLang.Proofs.Syntax.Parser.Termination
import MiniLang.Proofs.Syntax.Parser.Truncation.Logic

/-!
# Expressions that are cut off

The front behind an expression has the same open brackets as the one before it, and the expression
is complete. Where it is cut off, either an operand is missing, and the brace around is to blame, or
the parenthesis that would be closed next.
-/

set_option autoImplicit false

namespace MiniLang

namespace Parse

open Cut

variable {c : Cut} {brace : Option Token} {opened : List Bracket} {p p' q : Parser}
  {inner : ExprParser} {bound : Nat}

/-- An expression is complete, and the same brackets are open as before. -/
def Complete (opened : List Bracket) (f : Front) (_ : Parser) : Prop := f = ⟨opened, .complete⟩

/-- A parser of expressions follows itself, as long as so few tokens are pending. -/
def FollowsExpr (c : Cut) (brace : Option Token) (inner : ExprParser) (bound : Nat) : Prop :=
  ∀ (power : BindingPower) (opened : List Bracket) (p p' : Parser), AmongOperands brace opened →
    p.pending.length < bound →
    c.Follows brace anyValue (inner power) (inner power) ⟨opened, .other⟩ p p' (Complete opened)

/-- A number that is read has a value. -/
theorem parse?_of_literal {e : Expr} (is : p.current.kind = .integer)
    (h : literal p = .ok e q) : ∃ value, Integer.parse? p.current.text.toList = some value := by
  cases parsed : Integer.parse? p.current.text.toList with
  | some value => exact ⟨value, rfl⟩
  | none =>
    obtain ⟨t, r, taken, rest⟩ := ok_of_bind h
    cases taken
    simp only [is, parsed] at rest
    cases rest

theorem follows_literal (begins : Grammar.standard.prefixRule p.current.kind = some .literal) :
    c.Follows brace anyValue literal literal ⟨opened, .other⟩ p p' (Complete opened) := by
  have is : p.current.kind ∈ [TokenKind.integer, .kwTrue, .kwFalse] := by
    cases kind : p.current.kind <;> simp_all [Grammar.standard]
  have more : p.atEnd = false := by
    cases kind : p.current.kind <;> simp_all [Parser.atEnd]
  refine .of_ok more fun e r holds result _ => .advance more fun q' => ?_
  have same := holds.current more
  rw [Front.step_complete _ (List.mem_append_left [TokenKind.kwInt, .kwBool] is)]
  have node : ∀ value : Literal, c.Follows brace anyValue
      (do return Expr.literal (← freshId) p.current.span value)
      (do return Expr.literal (← freshId) p.current.span value) ⟨opened, .complete⟩ p.advance q'
      (Complete opened) := fun _ => .node fun _ _ _ => rfl
  simp only [List.mem_cons, List.not_mem_nil, or_false] at is
  rcases is with is | is | is
  · obtain ⟨value, parsed⟩ := parse?_of_literal (same ▸ is) result
    rw [same] at parsed
    simp only [is, parsed]
    exact node _
  · simp only [is]
    exact node _
  · simp only [is]
    exact node _

/-- The arguments of a call leave open what they found open. At the end there are some. -/
def AfterList (opened : List Bracket) (f : Front) (q : Parser) : Prop :=
  f.opened = opened ∧ (q.atEnd = true → f.recent = .complete)

theorem follows_commaSeparated (h : FollowsExpr c brace inner bound)
    (among : AmongOperands brace opened) :
    ∀ (fuel fuel' : Nat) (p p' : Parser), p.pending.length < fuel → p.pending.length < fuel' →
      p.pending.length < bound →
      c.Follows brace anyValue (commaSeparated inner fuel) (commaSeparated inner fuel')
        ⟨opened, .other⟩ p p' (AfterList opened)
  | 0, _, _, _, less, _, _ => absurd less (Nat.not_lt_zero _)
  | _ + 1, 0, _, _, _, less, _ => absurd less (Nat.not_lt_zero _)
  | fuel + 1, fuel' + 1, p, p', less, less', few => by
    refine (h .default opened p p' among few).bind fun e f q q' complete le => .kind ?_
    obtain rfl := complete
    refine .ite (fun comma => ?_) fun _ => .pure ⟨rfl, fun _ => rfl⟩
    have more : q.atEnd = false := by simp [Parser.atEnd, comma]
    have shorter := Parser.length_pending_advance_lt more
    refine .advance more fun q'' => ?_
    rw [Front.step_other _ comma (by decide)]
    refine (follows_commaSeparated h among fuel fuel' q.advance q'' (by omega) (by omega)
      (by omega)).bind fun es g r r' after le' => .pure after

theorem follows_arguments (h : FollowsExpr c brace inner bound)
    (among : AmongOperands brace opened) (few : p.pending.length < bound) :
    c.Follows brace anyValue (arguments inner) (arguments inner) ⟨opened, .other⟩ p p'
      (AfterList opened) := by
  refine .kind (.ite (fun closes => .pure ⟨rfl, fun atEnd => ?_⟩) fun _ => .bounded ?_)
  · simp [Parser.atEnd, closes] at atEnd
  · exact fun fuel fuel' enough enough' =>
      follows_commaSeparated h among fuel fuel' p p' enough enough' few

theorem follows_nameOrCall (h : FollowsExpr c brace inner bound)
    (among : AmongOperands brace opened) (few : p.pending.length ≤ bound)
    (is : p.current.kind = .identifier) :
    c.Follows brace anyValue (nameOrCall inner) (nameOrCall inner) ⟨opened, .other⟩ p p'
      (Complete opened) := by
  have more : p.atEnd = false := by simp [Parser.atEnd, is]
  have shorter := Parser.length_pending_advance_lt more
  refine .advance more fun q' => .kind ?_
  rw [Front.step_identifier is among (by decide)]
  refine .ite (fun opens => ?_) fun _ => .node fun _ _ _ => rfl
  have more : p.advance.atEnd = false := by simp [Parser.atEnd, opens]
  have shorter' := Parser.length_pending_advance_lt more
  refine .advance more fun q'' => ?_
  rw [Front.step_openParen opens (by decide)]
  refine (follows_arguments h (among.paren opens) (by omega)).bind ?_
  rintro es ⟨_, recent⟩ r r' ⟨rfl, complete⟩ le
  refine .expectClosing (by decide) (fun atEnd => ?_) fun closes s' => ?_
  · obtain rfl := complete atEnd
    exact Front.blamed_of_complete
  · rw [Front.step_closeParen closes]
    exact .node fun _ _ _ => rfl

theorem follows_unaryOperation (h : FollowsExpr c brace inner bound)
    (among : AmongOperands brace opened) (few : p.pending.length ≤ bound)
    (begins : Grammar.standard.prefixRule p.current.kind = some .operator) :
    c.Follows brace anyValue (unaryOperation inner) (unaryOperation inner) ⟨opened, .other⟩ p p'
      (Complete opened) := by
  have is : p.current.kind = .dash ∨ p.current.kind = .not := by
    cases kind : p.current.kind <;> simp_all [Grammar.standard]
  have more : p.atEnd = false := by rcases is with is | is <;> simp [Parser.atEnd, is]
  have step : (⟨opened, .other⟩ : Front).step p.current = ⟨opened, .other⟩ := by
    rcases is with is | is <;> exact Front.step_other _ is (by decide)
  have shorter := Parser.length_pending_advance_lt more
  refine .advance more fun q' => ?_
  rw [step]
  refine (h .unary opened p.advance q' among (by omega)).bind fun e f r r' complete _ => ?_
  obtain rfl := complete
  exact .node fun _ _ _ => rfl

theorem follows_grouping (h : FollowsExpr c brace inner bound)
    (among : AmongOperands brace opened) (few : p.pending.length ≤ bound)
    (opens : p.current.kind = .openParen) :
    c.Follows brace anyValue (grouping inner) (grouping inner) ⟨opened, .other⟩ p p'
      (Complete opened) := by
  have more : p.atEnd = false := by simp [Parser.atEnd, opens]
  have shorter := Parser.length_pending_advance_lt more
  refine .advance more fun q' => ?_
  rw [Front.step_openParen opens (by decide)]
  refine (h .default _ p.advance q' (among.paren opens) (by omega)).bind ?_
  rintro e f r r' complete _
  obtain rfl := complete
  refine .expectClosing (by decide) (fun _ => Front.blamed_of_complete) fun closes s' => ?_
  rw [Front.step_closeParen closes]
  exact .pure rfl

theorem follows_prefixForm (h : FollowsExpr c brace inner bound)
    (among : AmongOperands brace opened) (few : p.pending.length ≤ bound) {rule : PrefixRule}
    (begins : Grammar.standard.prefixRule p.current.kind = some rule) :
    c.Follows brace anyValue (prefixForm inner rule) (prefixForm inner rule) ⟨opened, .other⟩ p p'
      (Complete opened) := by
  cases rule with
  | literal => exact follows_literal begins
  | name =>
    refine follows_nameOrCall h among few ?_
    cases kind : p.current.kind <;> simp_all [Grammar.standard]
  | operator => exact follows_unaryOperation h among few begins
  | grouping =>
    refine follows_grouping h among few ?_
    cases kind : p.current.kind <;> simp_all [Grammar.standard]
  | unknown =>
    -- on the whole text this fails
    have more : p.atEnd = false := by
      cases kind : p.current.kind <;> simp_all [Grammar.standard, Parser.atEnd]
    refine .of_ok more fun e r _ result _ => ?_
    cases result

/-- An expression goes on, and tokens were taken. -/
def GoesOn (opened : List Bracket) (left : Nat) (f : Front) (q : Parser) : Prop :=
  f = ⟨opened, .complete⟩ ∧ q.pending.length < left

/-- What continues an expression is no bracket and no operand. -/
theorem step_of_infixRule {f : Front} {t : Token} {own : BindingPower} {rule : InfixRule}
    (continues : Grammar.standard.infixRule t.kind = some (own, rule)) :
    f.step t = ⟨f.opened, .other⟩ := by
  refine Front.step_other f rfl ?_
  intro mem
  simp only [List.mem_cons, List.not_mem_nil, or_false] at mem
  rcases mem with is | is | is | is | is | is | is | is | is | is | is <;>
    (rw [is] at continues; cases continues)

theorem follows_binaryOperation (h : FollowsExpr c brace inner bound)
    (among : AmongOperands brace opened) (few : p.pending.length ≤ bound) (power : BindingPower)
    (left : Expr) {own : BindingPower}
    (continues : Grammar.standard.infixRule p.current.kind = some (own, .operator)) :
    c.Follows brace anyValue (binaryOperation inner power left) (binaryOperation inner power left)
      ⟨opened, .complete⟩ p p' (GoesOn opened p.pending.length) := by
  have more : p.atEnd = false := by
    cases kind : p.current.kind <;> simp_all [Grammar.standard, Parser.atEnd]
  have shorter := Parser.length_pending_advance_lt more
  obtain ⟨op, stands⟩ : ∃ op, BinaryOp.ofToken? p.current.kind = some op := by
    cases kind : p.current.kind <;> simp_all [Grammar.standard, BinaryOp.ofToken?]
  refine .advance more fun q' => ?_
  rw [step_of_infixRule continues, stands]
  refine (h power opened p.advance q' among (by omega)).bind fun e f r r' complete le => ?_
  obtain rfl := complete
  exact .node fun _ same _ => ⟨rfl, same ▸ le.trans_lt shorter⟩

theorem follows_assignment (h : FollowsExpr c brace inner bound)
    (among : AmongOperands brace opened) (few : p.pending.length ≤ bound) (left : Expr)
    {own : BindingPower} {rule : InfixRule}
    (continues : Grammar.standard.infixRule p.current.kind = some (own, rule)) :
    c.Follows brace anyValue (assignment inner left) (assignment inner left) ⟨opened, .complete⟩ p
      p' (GoesOn opened p.pending.length) := by
  have more : p.atEnd = false := by
    cases kind : p.current.kind <;> simp_all [Grammar.standard, Parser.atEnd]
  have shorter := Parser.length_pending_advance_lt more
  refine .of_ok more fun e r _ result _ => .advance more fun q' => ?_
  rw [step_of_infixRule continues]
  refine (h .default opened p.advance q' among (by omega)).bind fun value f r r' complete le => ?_
  obtain rfl := complete
  -- the left side is a name, since the parser of the whole text goes on
  cases left with
  | var id span name => exact .node fun _ same _ => ⟨rfl, same ▸ le.trans_lt shorter⟩
  | _ =>
    obtain ⟨t, r₁, -, rest⟩ := ok_of_bind result
    obtain ⟨v, r₂, -, rest⟩ := ok_of_bind rest
    cases rest

theorem follows_extend (h : FollowsExpr c brace inner bound) (among : AmongOperands brace opened)
    (power : BindingPower) :
    ∀ (fuel fuel' : Nat) (left : Expr) (p p' : Parser), p.pending.length < fuel →
      p.pending.length < fuel' → p.pending.length ≤ bound →
      c.Follows brace anyValue (extend .standard inner power fuel left)
        (extend .standard inner power fuel' left) ⟨opened, .complete⟩ p p' (Complete opened)
  | 0, _, _, _, _, less, _, _ => absurd less (Nat.not_lt_zero _)
  | _ + 1, 0, _, _, _, _, less, _ => absurd less (Nat.not_lt_zero _)
  | fuel + 1, fuel' + 1, left, p, p', less, less', few => by
    refine .kind ?_
    cases continues : Grammar.standard.infixRule p.current.kind with
    | none => exact .pure rfl
    | some found =>
      obtain ⟨own, rule⟩ := found
      refine .ite (fun _ => .pure rfl) fun _ => ?_
      have one : c.Follows brace anyValue (infixForm inner own left rule)
          (infixForm inner own left rule) ⟨opened, .complete⟩ p p'
          (GoesOn opened p.pending.length) := by
        cases rule with
        | operator => exact follows_binaryOperation h among few own left continues
        | assignment => exact follows_assignment h among few left continues
      refine one.bind ?_
      rintro e f q q' ⟨rfl, fewer⟩ le
      exact follows_extend h among power fuel fuel' e q q' (by omega) (by omega) (le.trans few)

theorem followsExpr_expression :
    ∀ bound, FollowsExpr c brace (expression .standard) bound
  | 0, _, _, _, _, _, less => absurd less (Nat.not_lt_zero _)
  | bound + 1, power, opened, p, p', among, less => by
    have h := followsExpr_expression bound
    have few : p.pending.length ≤ bound := Nat.le_of_lt_succ less
    refine .of_eq (expression_eq power p) (fun _ _ => expression_eq power p') (.kind ?_)
    cases begins : Grammar.standard.prefixRule p.current.kind with
    | none => exact .unexpectedHere fun _ => among.blamed
    | some rule =>
      refine (follows_prefixForm h among few begins).bind fun left f q q' complete le => ?_
      obtain rfl := complete
      exact .bounded fun fuel fuel' enough enough' =>
        follows_extend h among power fuel fuel' left q q' enough enough' (le.trans few)

theorem follows_expression (power : BindingPower) (among : AmongOperands brace opened) :
    c.Follows brace anyValue (expression .standard power) (expression .standard power)
      ⟨opened, .other⟩ p p' (Complete opened) :=
  followsExpr_expression (p.pending.length + 1) power opened p p' among (Nat.lt_succ_self _)

end Parse

end MiniLang
