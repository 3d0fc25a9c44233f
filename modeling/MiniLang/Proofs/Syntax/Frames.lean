import MiniLang.Proofs.Syntax.Parentheses
import MiniLang.Proofs.Syntax.Parser.Completeness.Expressions
import MiniLang.Proofs.Syntax.Sites
import MiniLang.Proofs.Token.Cutting

/-!
# What spans leave out

Parentheses leave no trace in the tree, and so spans do not always reach as far as the tokens that a
node was read from. The span of an expression leaves out the parentheses at both of its ends, those
of the operands that stand there included (`Sited.framed`). The span of a statement leaves out the
opening parentheses at the beginning if the statement is an expression, and nothing in all other
statements (`SitedTop.reaches`).
-/

set_option autoImplicit false

namespace MiniLang

variable {d : Dialect}

theorem Sited.parensMatch (names : d.NamesTargets) {l : Stratum} {ts : List Token} {e : Expr}
    (h : Sited d l ts e) : Token.ParensMatch ts := h.derives.parensMatch names

/-- How an expression stands among the tokens that it was read from: its span is that of `core`,
behind parentheses that are opened and before parentheses that are closed. If those of `core` match,
`core` alone is read as the expression. -/
structure Expr.Framed (d : Dialect) (e : Expr) (opens core closes : List Token) : Prop where
  opens : ∀ t ∈ opens, t.kind = .openParen
  closes : ∀ t ∈ closes, t.kind = .closeParen
  begins : ∀ t ∈ core.head?, t.kind ≠ .openParen
  reaches : e.span.Reaches core
  sited : Token.ParensMatch core → Sited d .assignment core e

namespace Expr.Framed

variable {e a b : Expr} {opens core closes opens' core' closes' : List Token} {sign : Token}

/-- Nothing is left out at the ends of the expression. -/
theorem whole {l : Stratum} {t : Token} {ts : List Token} (h : Sited d l (t :: ts) e)
    (begins : t.kind ≠ .openParen) (reaches : e.span.Reaches (t :: ts)) :
    e.Framed d [] (t :: ts) [] where
  opens := List.forall_mem_nil _
  closes := List.forall_mem_nil _
  begins := fun _ mem => Option.some.inj mem ▸ begins
  reaches := reaches
  sited _ := h.loosest

/-- What two expressions with a sign between them are put together to. -/
theorem join (names : d.NamesTargets) (left : a.Framed d opens core closes)
    (leftMatch : Token.ParensMatch (opens ++ (core ++ closes)))
    (right : b.Framed d opens' core' closes')
    (h : Sited d .assignment
      (opens ++ (core ++ closes) ++ sign :: (opens' ++ (core' ++ closes'))) e)
    (span : e.span = a.span.join b.span)
    (ordered : Token.InOrder
      (opens ++ (core ++ closes) ++ sign :: (opens' ++ (core' ++ closes')))) :
    e.Framed d opens (core ++ ((closes ++ sign :: opens') ++ core')) closes' where
  opens := left.opens
  closes := right.closes
  begins := by
    obtain ⟨t, rest, rfl⟩ := List.exists_cons_of_ne_nil left.reaches.ne_nil
    exact left.begins
  reaches := by
    rw [span]
    refine left.reaches.join right.reaches _ (ordered.sublist ?_)
    have part : core ++ ((closes ++ sign :: opens') ++ core') <:+:
        opens ++ (core ++ closes) ++ sign :: (opens' ++ (core' ++ closes')) :=
      ⟨opens, closes', by simp⟩
    exact part.sublist
  sited := by
    intro all
    -- Parentheses of the operands that are left out would be missed between the two ends.
    have front : Token.ParensMatch ((core ++ closes) ++ sign :: (opens' ++ core')) := by
      simpa using all
    obtain rfl := Token.eq_nil_of_parensMatch_front left.opens leftMatch front
    have back : Token.ParensMatch ((core ++ ((closes ++ sign :: opens') ++ core')) ++ closes') := by
      simpa using h.parensMatch names
    obtain rfl := Token.eq_nil_of_parensMatch_back right.closes back all
    simpa using h

end Expr.Framed

/-- Every expression is framed by the tokens that it was read from. -/
theorem Sited.framed (names : d.NamesTargets) {l : Stratum} {ts : List Token} {e : Expr}
    (h : Sited d l ts e) (ordered : Token.InOrder ts) :
    ∃ opens core closes, ts = opens ++ (core ++ closes) ∧ e.Framed d opens core closes := by
  have loose := h.loosest
  match h with
  | .tighter h => exact h.framed names ordered
  | .integer kind _ => exact ⟨[], _, [], rfl, .whole loose (by simp [kind]) (.single _)⟩
  | .yes kind => exact ⟨[], _, [], rfl, .whole loose (by simp [kind]) (.single _)⟩
  | .no kind => exact ⟨[], _, [], rfl, .whole loose (by simp [kind]) (.single _)⟩
  | .name kind => exact ⟨[], _, [], rfl, .whole loose (by simp [kind]) (.single _)⟩
  | @Sited.call _ f opening closing ts _ _ kind _ _ _ =>
    refine ⟨[], _, [], (List.append_nil _).symm, .whole loose (by simp [kind]) ?_⟩
    exact .ends (opening :: ts) ordered
  | @Sited.group _ opening closing _ _ opens inside closes =>
    have inner := (List.pairwise_append.1 (List.pairwise_cons.1 ordered).2).1
    obtain ⟨opens', core, closes', rfl, frame⟩ := inside.framed names inner
    refine ⟨opening :: opens', core, closes' ++ [closing], by simp, { frame with
      opens := List.forall_mem_cons.2 ⟨opens, frame.opens⟩
      closes := List.forall_mem_append.2 ⟨frame.closes, List.forall_mem_singleton.2 closes⟩ }⟩
  | @Sited.unary _ _ _ sign _ _ mem operand =>
    obtain ⟨opens, core, closes, rfl, frame⟩ :=
      operand.framed names (List.pairwise_cons.1 ordered).2
    have begins : sign.kind ≠ .openParen := by
      intro is
      rw [is] at mem
      simp [UnaryOp.tokens] at mem
    refine ⟨[], sign :: (opens ++ core), closes, by simp, {
      opens := List.forall_mem_nil _
      closes := frame.closes
      begins := fun _ mem => Option.some.inj mem ▸ begins
      reaches := ?_
      sited := fun all => ?_ }⟩
    · refine (Span.Reaches.single sign).join frame.reaches opens ?_
      rw [← List.append_assoc, ← List.cons_append] at ordered
      exact (List.pairwise_append.1 ordered).1
    · have whole := loose.parensMatch names
      rw [← List.append_assoc, ← List.cons_append] at whole
      obtain rfl := Token.eq_nil_of_parensMatch_back frame.closes whole all
      simpa using loose
  | .binary _ left right =>
    obtain ⟨before, behind, -⟩ := List.pairwise_append.1 ordered
    obtain ⟨opens, core, closes, rfl, first⟩ := left.framed names before
    obtain ⟨opens', core', closes', rfl, second⟩ :=
      right.framed names (List.pairwise_cons.1 behind).2
    refine ⟨opens, _, closes', ?_, first.join names (left.parensMatch names) second loose rfl
      ordered⟩
    simp
  | .assignment _ _ target value =>
    obtain ⟨before, behind, -⟩ := List.pairwise_append.1 ordered
    obtain ⟨opens, core, closes, rfl, first⟩ := target.framed names before
    obtain ⟨opens', core', closes', rfl, second⟩ :=
      value.framed names (List.pairwise_cons.1 behind).2
    refine ⟨opens, _, closes', ?_, first.join names (target.parensMatch names) second loose rfl
      ordered⟩
    simp

/-! ## Statements -/

theorem Token.reaches_reach {t : Token} {ts : List Token} (ordered : Token.InOrder (t :: ts)) :
    (Token.reach (t :: ts)).Reaches (t :: ts) := by
  rcases List.eq_nil_or_concat' ts with rfl | ⟨us, last, rfl⟩
  · have same : Token.reach [t] = t.span := by
      rw [Token.reach]
      change t.span.join t.span = t.span
      rw [Span.join, Nat.max_self]
    rw [same]
    exact .single t
  · rw [Token.reach, Token.lastSpan_append]
    exact .ends us ordered

/-- The tokens of a statement that its span reaches over: all of them, but for parentheses at the
beginning of an expression. -/
def Stmt.spanned : Stmt → List Token → List Token
  | .expression .., run => run.dropWhile (·.kind = .openParen)
  | _, run => run

theorem SitedBlock.reaches {ts : List Token} {b : Block} (h : SitedBlock d ts b)
    (ordered : Token.InOrder ts) : b.span.Reaches ts := by
  cases h with
  | mk => exact .ends _ ordered

theorem SitedChoice.reaches {ts : List Token} {s : Stmt} (h : SitedChoice d ts s)
    (ordered : Token.InOrder ts) : s.span.Reaches (s.spanned ts) := by
  cases h with
  | ifThen | ifThenElse | elseIf => exact Token.reaches_reach ordered

theorem SitedStmt.reaches (names : d.NamesTargets) (noMarks : ∀ ts, ¬d.placeholder ts)
    {ts : List Token} {s : Stmt} (h : SitedStmt d ts s) (ordered : Token.InOrder ts) :
    s.span.Reaches (s.spanned ts) := by
  cases h with
  | @letVar start name sign stop type ts =>
    have split : start :: name :: (type ++ sign :: (ts ++ [stop])) =
        start :: ((name :: (type ++ sign :: ts)) ++ [stop]) := by simp
    rw [split] at ordered ⊢
    exact .ends _ ordered
  | choice h => exact h.reaches ordered
  | @whileLoop start opening closing ts us e b _ _ _ _ body =>
    have split : start :: opening :: (ts ++ closing :: us) =
        [start] ++ ((opening :: (ts ++ [closing])) ++ us) := by simp
    rw [split] at ordered ⊢
    have inner := body.reaches (List.pairwise_append.1 (List.pairwise_append.1 ordered).2.1).2.1
    exact (Span.Reaches.single start).join inner _ ordered
  | block h => exact h.reaches ordered
  | leave => exact .ends [] ordered
  | giveBack => exact .ends _ ordered
  | @expression stop ts e h =>
    obtain ⟨before, -, -⟩ := List.pairwise_append.1 ordered
    obtain ⟨opens, core, closes, rfl, framed⟩ := h.framed names before
    have split : opens ++ (core ++ closes) ++ [stop] = opens ++ (core ++ (closes ++ [stop])) := by
      simp
    have dropped : (Stmt.expression (e.span.join stop.span) e).spanned
        (opens ++ (core ++ closes) ++ [stop]) = core ++ (closes ++ [stop]) := by
      obtain ⟨t, rest, rfl⟩ := List.exists_cons_of_ne_nil framed.reaches.ne_nil
      have begins := framed.begins t rfl
      rw [Stmt.spanned, split, List.dropWhile_append_of_pos (by simpa using framed.opens)]
      simp [begins]
    rw [dropped]
    rw [split] at ordered
    exact framed.reaches.join (.single stop) closes (List.pairwise_append.1 ordered).2.1
  | error mark => exact absurd mark (noMarks _)

/-- A span reaches over all of a statement but the parentheses at the beginning of an expression. -/
theorem SitedTop.reaches (names : d.NamesTargets) (noMarks : ∀ ts, ¬d.placeholder ts)
    {ts : List Token} {s : Stmt} (h : SitedTop d ts s) (ordered : Token.InOrder ts) :
    s.span.Reaches (s.spanned ts) := by
  cases h with
  | inner h => exact h.reaches names noMarks ordered
  | @function start front ts header body _ h =>
    have inner := h.reaches (List.pairwise_append.1 (List.pairwise_cons.1 ordered).2).2.1
    exact (Span.Reaches.single start).join inner front ordered

end MiniLang
