import MiniLang.Proofs.Syntax.Bare
import MiniLang.Proofs.Syntax.Parser.Completeness.Logic

/-!
# Which expressions are read

A parser reads every expression that is derived from the terminals ahead of it, up to numbers and
places (`Derives.gives`). The induction is on the derivation. An expression may turn out to be the
left operand of an operator that comes after it, so that nothing is said of how the parser gets to
the end of it: the parser gets to the point where it asks whether to go on (`Parse.Heads`). There
either the next token binds no tighter than the parser is asked to, and the expression is done, or
the derivation goes on with an operator.
-/

set_option autoImplicit false

namespace MiniLang

/-- How tightly the first of the terminals binds what stands before it. -/
def pullOf : List Terminal → Nat
  | [] => 0
  | t :: _ => (Grammar.standard.bindingPower t.kind).level

theorem Parser.pull_eq (p : Parser) : p.pull = pullOf p.ahead := by
  cases atEnd : p.atEnd with
  | true =>
    have kind : p.current.kind = .endOfInput := beq_iff_eq.1 atEnd
    rw [ahead_of_atEnd atEnd, Parser.pull, kind]
    rfl
  | false => rw [ahead_of_not_atEnd atEnd, pullOf, Token.kind_terminal, Parser.pull]

/-- What may follow an expression of a stratum so that the stratum ends there. -/
structure Stratum.Ends (l : Stratum) (rest : List Terminal) : Prop where
  pull : pullOf rest ≤ if l = .assignment then 0 else l.rank
  noCall : ∀ us, rest ≠ .fixed .openParen :: us

namespace Stratum

variable {l : Stratum} {rest : List Terminal}

theorem Ends.next (h : l.Ends rest) : l.next.Ends rest := by
  refine ⟨h.pull.trans ?_, h.noCall⟩
  cases l <;> decide

theorem rank_le_rank_next (l : Stratum) : l.rank ≤ l.next.rank := by cases l <;> decide

/-- A token that binds nothing ends every stratum, apart from the parenthesis of a call. -/
theorem ends_of_loose {t : Terminal} (loose : Grammar.standard.infixRule t.kind = none)
    (noCall : t ≠ .fixed .openParen) : l.Ends (t :: rest) := by
  refine ⟨?_, fun us same => noCall (List.cons.inj same).1⟩
  simp [pullOf, Grammar.bindingPower, loose, BindingPower.level]

/-- What the tables say of an operator of a stratum. -/
theorem mem_operators {kind : TokenKind} {op : BinaryOp} (h : (kind, op) ∈ l.operators) :
    ∃ own, Grammar.standard.infixRule kind = some (own, .operator) ∧
      BinaryOp.ofToken? kind = some op ∧ own.level = l.rank ∧ l.rank < l.next.rank ∧
      l ≠ .assignment ∧ kind ≠ .openParen := by
  cases l <;> simp only [operators, List.mem_cons, List.not_mem_nil, Prod.mk.injEq, or_false] at h
  case logicalOr | logicalAnd =>
    obtain ⟨rfl, rfl⟩ := h
    exact ⟨_, rfl, rfl, rfl, by decide, by decide, by decide⟩
  case equality | additive =>
    rcases h with ⟨rfl, rfl⟩ | ⟨rfl, rfl⟩ <;>
      exact ⟨_, rfl, rfl, rfl, by decide, by decide, by decide⟩
  case multiplicative =>
    rcases h with ⟨rfl, rfl⟩ | ⟨rfl, rfl⟩ | ⟨rfl, rfl⟩ <;>
      exact ⟨_, rfl, rfl, rfl, by decide, by decide, by decide⟩
  case relational =>
    rcases h with ⟨rfl, rfl⟩ | ⟨rfl, rfl⟩ | ⟨rfl, rfl⟩ | ⟨rfl, rfl⟩ <;>
      exact ⟨_, rfl, rfl, rfl, by decide, by decide, by decide⟩

theorem ends_operator {kind : TokenKind} {op : BinaryOp} (h : (kind, op) ∈ l.operators) :
    l.Ends (.fixed kind :: rest) := by
  obtain ⟨own, binds, -, rank, -, notAssignment, noCall⟩ := mem_operators h
  refine ⟨?_, fun us same => noCall (Terminal.fixed.inj (List.cons.inj same).1)⟩
  simp [pullOf, Terminal.kind, Grammar.bindingPower, binds, notAssignment, rank]

end Stratum

/-! ## How expressions begin -/

/-- The tokens that an expression can begin with. -/
def exprStarts : List TokenKind :=
  [.integer, .identifier, .kwTrue, .kwFalse, .dash, .not, .openParen]

theorem Enclosed.begins {ts : List Terminal} {x : String} (h : Enclosed ts x) :
    ∃ t us, ts = t :: us ∧ t.kind ∈ exprStarts := by
  cases h with
  | name => exact ⟨_, _, rfl, by simp [exprStarts, Terminal.kind]⟩
  | parens => exact ⟨_, _, rfl, by simp [exprStarts, Terminal.kind]⟩

variable {d : Dialect}

/-- The dialect has nothing but names in parentheses, and those without, on the left of an
assignment. -/
def Dialect.NamesTargets (d : Dialect) : Prop := ∀ ts x, d.target ts x → Enclosed ts x

theorem Derives.begins (names : d.NamesTargets) {l : Stratum} {ts : List Terminal} {e : Expr}
    (h : Derives d l ts e) : ∃ t us, ts = t :: us ∧ t.kind ∈ exprStarts := by
  match h with
  | .tighter h => exact h.begins names
  | .assignment target _ =>
    obtain ⟨t, us, rfl, start⟩ := (names _ _ target).begins
    exact ⟨t, _, rfl, start⟩
  | .binary _ left _ =>
    obtain ⟨t, us, rfl, start⟩ := left.begins names
    exact ⟨t, _, rfl, start⟩
  | .unary mem _ =>
    refine ⟨_, _, rfl, ?_⟩
    simp only [UnaryOp.tokens, List.mem_cons, List.not_mem_nil, Prod.mk.injEq, or_false] at mem
    rcases mem with ⟨rfl, rfl⟩ | ⟨rfl, rfl⟩ <;> decide
  | .integer _ | .yes | .no | .name | .call _ | .group _ =>
    exact ⟨_, _, rfl, by simp [exprStarts, Terminal.kind]⟩

theorem DerivesSeparated.begins (names : d.NamesTargets) {ts : List Terminal} {es : List Expr}
    (h : DerivesSeparated d ts es) : ∃ t us, ts = t :: us ∧ t.kind ∈ exprStarts := by
  cases h with
  | last derives => exact derives.begins names
  | cons derives _ =>
    obtain ⟨t, us, rfl, start⟩ := derives.begins names
    exact ⟨t, _, rfl, start⟩

theorem Derives.length_pos (names : d.NamesTargets) {l : Stratum} {ts : List Terminal} {e : Expr}
    (h : Derives d l ts e) : 0 < ts.length := by
  obtain ⟨t, us, rfl, -⟩ := h.begins names
  exact Nat.succ_pos _

namespace Parse

open MiniLang.Parser

variable {p q : Parser} {rest : List Terminal}

/-- A parser comes to where it asks whether to go on with an expression, in front of `rest`. -/
def Heads (fuel : Nat) (power : BindingPower) (p : Parser) (e : Expr) (rest : List Terminal) :
    Prop :=
  ∃ rounds left q,
    expressionFrom .standard (fuel + 1) power p =
      extend .standard (expressionFrom .standard fuel) power rounds left q ∧
    left.bare = e.bare ∧ rest.length < rounds ∧ Gets 0 p q rest

theorem extend_succ {inner : ExprParser} {power : BindingPower} {n : Nat} {left : Expr} :
    extend .standard inner power (n + 1) left p =
      (match Grammar.standard.infixRule p.current.kind with
        | none => (pure left : Parse Expr)
        | some (own, rule) =>
          if own.level ≤ power.level then pure left
          else infixForm inner own left rule >>= extend .standard inner power n) p := rfl

theorem expressionFrom_succ {power : BindingPower} {n : Nat} :
    expressionFrom .standard (n + 1) power p =
      (match Grammar.standard.prefixRule p.current.kind with
        | none =>
          (fun p => EStateM.Result.error (.unexpected "expression" p.current) p : Parse Expr)
        | some rule => prefixForm (expressionFrom .standard n) rule >>= fun left =>
          bounded fun rounds =>
            extend .standard (expressionFrom .standard n) power rounds left) p := rfl

theorem extend_stops {inner : ExprParser} {power : BindingPower} {rounds : Nat} {left : Expr}
    (loose : p.pull ≤ power.level) (more : 0 < rounds) :
    extend .standard inner power rounds left p = .ok left p := by
  obtain ⟨n, rfl⟩ := Nat.exists_eq_succ_of_ne_zero more.ne'
  rw [extend_succ]
  cases continues : Grammar.standard.infixRule p.current.kind with
  | none => rfl
  | some entry =>
    rw [pull_of_infixRule continues] at loose
    simp only [loose, ↓reduceIte]
    rfl

/-- A parser that is asked to bind tighter than the next token does is done. -/
theorem Heads.done {fuel : Nat} {power : BindingPower} {e : Expr} (h : Heads fuel power p e rest)
    (loose : pullOf rest ≤ power.level) :
    Gives 0 (expressionFrom .standard (fuel + 1) power) p (fun e' => e'.bare = e.bare) rest := by
  obtain ⟨rounds, left, q, reaches, same, less, gets⟩ := h
  rw [← gets.ahead, ← q.pull_eq] at loose
  exact ⟨left, q, reaches.trans (extend_stops loose (by omega)), same, gets⟩

/-- A parser that finds a tighter token behind a left operand goes on with it. -/
theorem Heads.goOn {fuel : Nat} {power own : BindingPower} {rule : InfixRule} {a e : Expr}
    {t : Terminal} {mid : List Terminal} (h : Heads fuel power p a (t :: mid))
    (continues : Grammar.standard.infixRule t.kind = some (own, rule))
    (tighter : power.level < own.level) (shorter : rest.length ≤ mid.length)
    (step : ∀ (left : Expr) (q : Parser), left.bare = a.bare → q.Calm → q.ahead = t :: mid →
      Gives 0 (infixForm (expressionFrom .standard fuel) own left rule) q
        (fun e' => e'.bare = e.bare) rest) :
    Heads fuel power p e rest := by
  obtain ⟨rounds, left, q, reaches, same, less, gets⟩ := h
  obtain ⟨e', r, result, same', gets'⟩ := step left q same gets.calm gets.ahead
  rw [List.length_cons] at less
  obtain ⟨n, rfl⟩ := Nat.exists_eq_succ_of_ne_zero (Nat.ne_zero_of_lt less)
  refine ⟨n, e', r, ?_, same', by omega, gets.trans gets'⟩
  rw [← kind_of_ahead_eq_cons gets.ahead] at continues
  rw [reaches, extend_succ, continues]
  simp only [Nat.not_le.2 tighter, ↓reduceIte]
  change EStateM.bind _ _ q = _
  simp only [EStateM.bind, result]

/-- A form that begins an expression comes to where the parser asks whether to go on. -/
theorem heads_of_prefixForm {fuel : Nat} {power : BindingPower} {e : Expr} (rule : PrefixRule)
    (begins : Grammar.standard.prefixRule p.current.kind = some rule)
    (h : Gives 0 (prefixForm (expressionFrom .standard fuel) rule) p (fun e' => e'.bare = e.bare)
      rest) : Heads fuel power p e rest := by
  obtain ⟨left, q, result, same, gets⟩ := h
  refine ⟨q.remaining + 1, left, q, ?_, same, ?_, gets⟩
  · rw [expressionFrom_succ, begins]
    change EStateM.bind _ _ p = _
    simp only [EStateM.bind, result]
    rfl
  · rw [← gets.ahead]
    exact Nat.lt_succ_of_le q.length_ahead_le

/-! ## The forms -/

/-- A node that takes nothing more. -/
theorem gives_node {e : NodeId → Expr} (e' : Expr) (calm : p.Calm) (cut : p.ahead = rest)
    (same : ∀ id, (e id).bare = e'.bare) :
    Gives 0 (do return e (← freshId)) p (fun e => e.bare = e'.bare) rest :=
  .freshId calm fun _ ahead calm _ => .pure calm (ahead.trans cut) (same _)

theorem gives_grouping {inner : ExprParser} {ts : List Terminal} {e : Expr} (calm : p.Calm)
    (cut : p.ahead = .fixed .openParen :: (ts ++ .fixed .closeParen :: rest))
    (h : ∀ q : Parser, q.Calm → q.ahead = ts ++ .fixed .closeParen :: rest →
      Gives 0 (inner .default) q (fun e' => e'.bare = e.bare) (.fixed .closeParen :: rest)) :
    Gives 0 (grouping inner) p (fun e' => e'.bare = e.bare) rest := by
  refine .advance calm cut fun _ q ahead calm _ => ?_
  refine (h q calm ahead).andThen fun e' r same ahead calm _ => ?_
  exact .expectClosing calm ahead rfl fun _ r' ahead calm _ => .pure calm ahead same

theorem gives_name {inner : ExprParser} {x : String} (calm : p.Calm)
    (cut : p.ahead = .identifier x :: rest) (noCall : ∀ us, rest ≠ .fixed .openParen :: us) :
    Gives 0 (nameOrCall inner) p (fun e' => e'.bare = .var 0 .origin x) rest := by
  refine .advance calm cut fun token q ahead calm _ => .kind ?_
  have kind : q.current.kind ≠ .openParen := by
    intro opens
    refine noCall q.advance.ahead ?_
    rw [← ahead, ahead_of_kind opens (by decide) (by decide)]
  rw [if_neg kind]
  refine gives_node (.var 0 .origin x) calm ahead fun id => ?_
  rw [Token.text_of_terminal token]
  rfl

theorem heads_grouping {fuel : Nat} {power : BindingPower} {ts : List Terminal} {e : Expr}
    (calm : p.Calm) (cut : p.ahead = Terminal.inParens ts ++ rest)
    (h : ∀ q : Parser, q.Calm → q.ahead = ts ++ .fixed .closeParen :: rest →
      Gives 0 (expressionFrom .standard fuel .default) q (fun e' => e'.bare = e.bare)
        (.fixed .closeParen :: rest)) :
    Heads fuel power p e rest := by
  have cut' : p.ahead = .fixed .openParen :: (ts ++ .fixed .closeParen :: rest) := by
    simpa [Terminal.inParens] using cut
  have kind : p.current.kind = .openParen := kind_of_ahead_eq_cons cut'
  exact heads_of_prefixForm .grouping (by rw [kind]; rfl) (gives_grouping calm cut' h)

theorem gives_binaryOperation {inner : ExprParser} {own : BindingPower} {kind : TokenKind}
    {op : BinaryOp} {left a b : Expr} {us : List Terminal} (same : left.bare = a.bare)
    (calm : p.Calm) (cut : p.ahead = .fixed kind :: us) (stands : BinaryOp.ofToken? kind = some op)
    (h : ∀ q : Parser, q.Calm → q.ahead = us →
      Gives 0 (inner own) q (fun e => e.bare = b.bare) rest) :
    Gives 0 (binaryOperation inner own left) p
      (fun e => e.bare = (Expr.binary 0 .origin op a b).bare) rest := by
  refine .advance calm cut fun token q ahead calm _ => ?_
  have kind : p.current.kind = kind := kind_of_ahead_eq_cons cut
  rw [kind, stands]
  refine (h q calm ahead).andThen fun right r same' ahead calm _ => ?_
  refine gives_node (.binary 0 .origin op a b) calm ahead fun id => ?_
  rw [Expr.bare, Expr.bare, same, same']

theorem gives_assignment {inner : ExprParser} {left e : Expr} {x : String} {us : List Terminal}
    (same : left.bare = .var 0 .origin x) (calm : p.Calm)
    (cut : p.ahead = .fixed .assignment :: us)
    (h : ∀ q : Parser, q.Calm → q.ahead = us →
      Gives 0 (inner .default) q (fun e' => e'.bare = e.bare) rest) :
    Gives 0 (assignment inner left) p
      (fun e' => e'.bare = (Expr.assignment 0 .origin x .origin e).bare) rest := by
  refine .advance calm cut fun _ q ahead calm _ => ?_
  refine (h q calm ahead).andThen fun value r same' ahead calm _ => ?_
  cases left with
  | var id span y =>
    cases same
    refine gives_node (.assignment 0 .origin x .origin e) calm ahead fun id => ?_
    rw [Expr.bare, Expr.bare, same']
  | _ => cases same

theorem gives_unaryOperation {inner : ExprParser} {kind : TokenKind} {op : UnaryOp} {e : Expr}
    {us : List Terminal} (mem : (kind, op) ∈ UnaryOp.tokens) (calm : p.Calm)
    (cut : p.ahead = .fixed kind :: us)
    (h : ∀ q : Parser, q.Calm → q.ahead = us →
      Gives 0 (inner .unary) q (fun e' => e'.bare = e.bare) rest) :
    Gives 0 (unaryOperation inner) p (fun e' => e'.bare = (Expr.unary 0 .origin op e).bare)
      rest := by
  have stands : (if kind = .dash then UnaryOp.neg else .not) = op := by
    simp only [UnaryOp.tokens, List.mem_cons, List.not_mem_nil, Prod.mk.injEq, or_false] at mem
    rcases mem with ⟨rfl, rfl⟩ | ⟨rfl, rfl⟩ <;> rfl
  have is : p.current.kind = kind := kind_of_ahead_eq_cons cut
  refine .advance calm cut fun _ q ahead calm _ => ?_
  rw [is, stands]
  refine (h q calm ahead).andThen fun e' r same ahead calm _ => ?_
  refine gives_node (.unary 0 .origin op e) calm ahead fun id => ?_
  rw [Expr.bare, Expr.bare, same]

theorem gives_value {span : Span} (value : Literal) (calm : p.Calm) (cut : p.ahead = rest) :
    Gives 0 (do return Expr.literal (← freshId) span value) p
      (fun e => e.bare = .literal 0 .origin value) rest :=
  gives_node (.literal 0 .origin value) calm cut fun _ => rfl

theorem gives_integer {text : String} {value : Int} (calm : p.Calm)
    (cut : p.ahead = .integer text :: rest) (parsed : Integer.parse? text.toList = some value) :
    Gives 0 literal p (fun e => e.bare = .literal 0 .origin (.int value)) rest := by
  refine .advance calm cut fun token q ahead calm _ => ?_
  have kind : p.current.kind = .integer := kind_of_ahead_eq_cons cut
  rw [kind, Token.text_of_terminal_integer token]
  simp only [parsed]
  exact gives_value (.int value) calm ahead

theorem gives_boolean (value : Bool) (calm : p.Calm)
    (cut : p.ahead = .fixed (if value then .kwTrue else .kwFalse) :: rest) :
    Gives 0 literal p (fun e => e.bare = .literal 0 .origin (.bool value)) rest := by
  refine .advance calm cut fun _ q ahead calm _ => ?_
  have kind : p.current.kind = if value then .kwTrue else .kwFalse := kind_of_ahead_eq_cons cut
  rw [kind]
  cases value with
  | true => exact gives_value (.bool true) calm ahead
  | false => exact gives_value (.bool false) calm ahead

theorem gives_call {inner : ExprParser} {f : String} {ts : List Terminal} {es : List Expr}
    (calm : p.Calm) (cut : p.ahead = .identifier f :: (Terminal.inParens ts ++ rest))
    (h : ∀ q : Parser, q.Calm → q.ahead = ts ++ .fixed .closeParen :: rest →
      Gives 0 (arguments inner) q (fun es' => Expr.bareAll es' = Expr.bareAll es)
        (.fixed .closeParen :: rest)) :
    Gives 0 (nameOrCall inner) p
      (fun e => e.bare = (Expr.call 0 .origin f .origin es).bare) rest := by
  refine .advance calm cut fun token q ahead calm _ => .kind ?_
  have opens : q.ahead = .fixed .openParen :: (ts ++ .fixed .closeParen :: rest) := by
    simpa [Terminal.inParens] using ahead
  have kind : q.current.kind = .openParen := kind_of_ahead_eq_cons opens
  rw [if_pos kind]
  refine .advance calm opens fun _ r ahead calm _ => ?_
  refine (h r calm ahead).andThen fun es' r' same ahead calm _ => ?_
  refine .expectClosing calm ahead rfl fun _ r'' ahead calm _ => ?_
  refine gives_node (.call 0 .origin f .origin es) calm ahead fun id => ?_
  rw [Expr.bare, Expr.bare, same, Token.text_of_terminal token]

/-- A name in parentheses is read as the name. -/
theorem heads_enclosed {ts : List Terminal} {x : String} (h : Enclosed ts x) :
    ∀ (fuel : Nat) (power : BindingPower) (p : Parser) (rest : List Terminal), p.Calm →
      p.ahead = ts ++ rest → (∀ us, rest ≠ .fixed .openParen :: us) → ts.length ≤ fuel + 1 →
      Heads fuel power p (.var 0 .origin x) rest := by
  induction h with
  | name x =>
    intro fuel power p rest calm cut noCall _
    have kind : p.current.kind = .identifier := kind_of_ahead_eq_cons cut
    exact heads_of_prefixForm .name (by rw [kind]; rfl) (gives_name calm cut noCall)
  | @parens ts x h ih =>
    intro fuel power p rest calm cut noCall enough
    obtain ⟨n, rfl⟩ : ∃ n, fuel = n + 1 := by
      refine Nat.exists_eq_succ_of_ne_zero ?_
      rintro rfl
      simp [Terminal.inParens] at enough
    refine heads_grouping calm cut fun q calm cut => ?_
    refine (ih n .default q _ calm cut (fun us same => ?_) ?_).done ?_
    · cases same
    · simp [Terminal.inParens] at enough
      omega
    · exact Nat.zero_le _

end Parse

open Parse
open MiniLang.Parser (kind_of_ahead_eq_cons)

theorem pullOf_le (rest : List Terminal) : pullOf rest ≤ BindingPower.unary.level := by
  cases rest with
  | nil => exact Nat.zero_le _
  | cons t rest =>
    have all : ∀ kind, (Grammar.standard.bindingPower kind).level ≤ BindingPower.unary.level := by
      intro kind
      cases kind <;> decide
    exact all t.kind

theorem Stratum.Ends.assignment_le {rest : List Terminal} (h : Stratum.assignment.Ends rest) :
    pullOf rest ≤ BindingPower.default.level := h.pull

/-! ## Derivations -/

mutual

/-- A parser that is asked for an expression of a stratum, or a looser one, comes to its end. -/
theorem Derives.heads (names : d.NamesTargets) {l : Stratum} {ts : List Terminal} {e : Expr}
    (h : Derives d l ts e) :
    ∀ (fuel : Nat) (power : BindingPower) (p : Parser) (rest : List Terminal),
      power.level < l.rank → p.Calm → p.ahead = ts ++ rest → l.Ends rest →
      ts.length ≤ fuel + 1 → Heads fuel power p e rest := by
  match h with
  | @Derives.tighter _ l ts e h =>
    intro fuel power p rest tighter calm cut ends enough
    exact h.heads names fuel power p rest (tighter.trans_le l.rank_le_rank_next) calm cut ends.next
      enough
  | @Derives.binary _ _ kind op ts us a b id span mem left right =>
    intro fuel power p rest tighter calm cut ends enough
    obtain ⟨own, binds, stands, rank, less, notAssignment, -⟩ := Stratum.mem_operators mem
    have some := left.length_pos names
    have some' := right.length_pos names
    simp only [List.length_append, List.length_cons] at enough
    obtain ⟨n, rfl⟩ : ∃ n, fuel = n + 1 := Nat.exists_eq_succ_of_ne_zero (by omega)
    have cut' : p.ahead = ts ++ .fixed kind :: (us ++ rest) := by simpa using cut
    have reached := left.heads names (n + 1) power p _ tighter calm cut'
      (Stratum.ends_operator mem) (by omega)
    refine reached.goOn binds (rank ▸ tighter) (by simp) fun left' q same calm cut => ?_
    refine gives_binaryOperation same calm cut stands fun q calm cut => ?_
    have operand := right.heads names n own q rest (rank ▸ less) calm cut ends.next (by omega)
    refine operand.done (ends.pull.trans ?_)
    rw [if_neg notAssignment, rank]
  | @Derives.assignment _ ts us x value id span xSpan target derives =>
    intro fuel power p rest tighter calm cut ends enough
    have enclosed := names ts x target
    have some := derives.length_pos names
    obtain ⟨t, ts', begins, -⟩ := enclosed.begins
    simp only [List.length_append, List.length_cons] at enough
    obtain ⟨n, rfl⟩ : ∃ n, fuel = n + 1 := Nat.exists_eq_succ_of_ne_zero (by omega)
    have cut' : p.ahead = ts ++ .fixed .assignment :: (us ++ rest) := by simpa using cut
    have reached := heads_enclosed enclosed (n + 1) power p _ calm cut'
      (fun _ same => by cases same) (by omega)
    refine reached.goOn rfl tighter (by simp) fun left q same calm cut => ?_
    refine gives_assignment same calm cut fun q calm cut => ?_
    have operand := derives.heads names n .default q rest (by decide) calm cut ends
      (by rw [begins, List.length_cons] at enough; omega)
    exact operand.done ends.assignment_le
  | @Derives.unary _ kind op ts e id span mem derives =>
    intro fuel power p rest tighter calm cut ends enough
    have some := derives.length_pos names
    rw [List.length_cons] at enough
    obtain ⟨n, rfl⟩ : ∃ n, fuel = n + 1 := Nat.exists_eq_succ_of_ne_zero (by omega)
    have kind : p.current.kind = kind := kind_of_ahead_eq_cons cut
    have begins : Grammar.standard.prefixRule p.current.kind = Option.some .operator := by
      rw [kind]
      simp only [UnaryOp.tokens, List.mem_cons, List.not_mem_nil, Prod.mk.injEq, or_false] at mem
      rcases mem with ⟨rfl, rfl⟩ | ⟨rfl, rfl⟩ <;> rfl
    refine heads_of_prefixForm .operator begins ?_
    refine gives_unaryOperation mem calm cut fun q calm cut => ?_
    have operand := derives.heads names n .unary q rest (by decide) calm cut ends (by omega)
    exact operand.done (pullOf_le rest)
  | @Derives.group _ ts e derives =>
    intro fuel power p rest tighter calm cut ends enough
    have some := derives.length_pos names
    simp only [Terminal.inParens, List.length_cons, List.length_append] at enough
    obtain ⟨n, rfl⟩ : ∃ n, fuel = n + 1 := Nat.exists_eq_succ_of_ne_zero (by omega)
    refine heads_grouping calm cut fun q calm cut => ?_
    have inside := derives.heads names n .default q _ (by decide) calm cut
      (Stratum.ends_of_loose rfl (by decide)) (by omega)
    exact inside.done (Nat.zero_le _)
  | @Derives.call _ f ts es id span fSpan derives =>
    intro fuel power p rest tighter calm cut ends enough
    simp only [Terminal.inParens, List.length_cons, List.length_append] at enough
    obtain ⟨n, rfl⟩ : ∃ n, fuel = n + 1 := Nat.exists_eq_succ_of_ne_zero (by omega)
    have kind : p.current.kind = .identifier := kind_of_ahead_eq_cons cut
    refine heads_of_prefixForm .name (by rw [kind]; rfl) (gives_call calm cut fun q calm cut => ?_)
    exact derives.gives names n q rest calm cut (by omega)
  | .name =>
    intro fuel power p rest tighter calm cut ends enough
    exact heads_enclosed (.name _) fuel power p rest calm cut ends.noCall enough
  | .integer parsed =>
    intro fuel power p rest tighter calm cut ends enough
    have kind : p.current.kind = .integer := kind_of_ahead_eq_cons cut
    exact heads_of_prefixForm .literal (by rw [kind]; rfl) (gives_integer calm cut parsed)
  | .yes =>
    intro fuel power p rest tighter calm cut ends enough
    have kind : p.current.kind = .kwTrue := kind_of_ahead_eq_cons cut
    exact heads_of_prefixForm .literal (by rw [kind]; rfl) (gives_boolean true calm cut)
  | .no =>
    intro fuel power p rest tighter calm cut ends enough
    have kind : p.current.kind = .kwFalse := kind_of_ahead_eq_cons cut
    exact heads_of_prefixForm .literal (by rw [kind]; rfl) (gives_boolean false calm cut)

/-- The arguments of a call are read up to the closing parenthesis. -/
theorem DerivesArguments.gives (names : d.NamesTargets) {ts : List Terminal} {es : List Expr}
    (h : DerivesArguments d ts es) :
    ∀ (fuel : Nat) (p : Parser) (rest : List Terminal), p.Calm →
      p.ahead = ts ++ .fixed .closeParen :: rest → ts.length ≤ fuel + 1 →
      Gives 0 (arguments (expressionFrom .standard (fuel + 1))) p
        (fun es' => Expr.bareAll es' = Expr.bareAll es) (.fixed .closeParen :: rest) := by
  match h with
  | .none =>
    intro fuel p rest calm cut enough
    have kind : p.current.kind = .closeParen := kind_of_ahead_eq_cons cut
    refine .kind ?_
    rw [if_pos kind]
    exact .pure calm cut rfl
  | .some derives =>
    intro fuel p rest calm cut enough
    obtain ⟨t, us, first, begins⟩ := derives.begins names
    have kind : p.current.kind ≠ .closeParen := by
      rw [first] at cut
      rw [kind_of_ahead_eq_cons cut]
      intro same
      rw [same] at begins
      exact absurd begins (by decide)
    refine .kind ?_
    rw [if_neg kind]
    have rounds := p.length_ahead_le
    rw [cut, List.length_append] at rounds
    exact derives.gives names fuel (p.remaining + 1) p rest calm cut enough (by omega)

theorem DerivesSeparated.gives (names : d.NamesTargets) {ts : List Terminal} {es : List Expr}
    (h : DerivesSeparated d ts es) :
    ∀ (fuel rounds : Nat) (p : Parser) (rest : List Terminal), p.Calm →
      p.ahead = ts ++ .fixed .closeParen :: rest → ts.length ≤ fuel + 1 → ts.length ≤ rounds →
      Gives 0 (commaSeparated (expressionFrom .standard (fuel + 1)) rounds) p
        (fun es' => Expr.bareAll es' = Expr.bareAll es) (.fixed .closeParen :: rest) := by
  match h with
  | @DerivesSeparated.last _ ts e derives =>
    intro fuel rounds p rest calm cut enough enough'
    have some := derives.length_pos names
    obtain ⟨n, rfl⟩ : ∃ n, rounds = n + 1 := Nat.exists_eq_succ_of_ne_zero (by omega)
    have only := derives.heads names fuel .default p _ (by decide) calm cut
      (Stratum.ends_of_loose rfl (by decide)) enough
    refine (only.done (Nat.zero_le _)).andThen fun e' q same ahead calm _ => .kind ?_
    have kind : q.current.kind = .closeParen := kind_of_ahead_eq_cons ahead
    rw [kind, if_neg (by decide)]
    refine .pure calm ahead ?_
    rw [Expr.bareAll, Expr.bareAll, same]
    rfl
  | @DerivesSeparated.cons _ ts us e es derives derives' =>
    intro fuel rounds p rest calm cut enough enough'
    have some := derives.length_pos names
    simp only [List.length_append, List.length_cons] at enough enough'
    obtain ⟨n, rfl⟩ : ∃ n, rounds = n + 1 := Nat.exists_eq_succ_of_ne_zero (by omega)
    have cut' : p.ahead = ts ++ .fixed .comma :: (us ++ .fixed .closeParen :: rest) := by
      simpa using cut
    have first := derives.heads names fuel .default p _ (by decide) calm cut'
      (Stratum.ends_of_loose rfl (by decide)) (by omega)
    refine (first.done (Nat.zero_le _)).andThen fun e' q same ahead calm _ => .kind ?_
    have kind : q.current.kind = .comma := kind_of_ahead_eq_cons ahead
    rw [if_pos kind]
    refine .advance calm ahead fun _ r ahead calm _ => ?_
    refine (derives'.gives names fuel n r rest calm ahead (by omega) (by omega)).andThen ?_
    intro es' r' same' ahead calm _
    refine .pure calm ahead ?_
    rw [Expr.bareAll, Expr.bareAll, same, same']

end

/-- What is derived is read, in front of a token that cannot belong to it. -/
theorem Derives.gives (names : d.NamesTargets) {ts rest : List Terminal} {e : Expr} {t : Terminal}
    {p : Parser} (h : Derives d .assignment ts e) (calm : p.Calm) (cut : p.ahead = ts ++ t :: rest)
    (loose : Grammar.standard.infixRule t.kind = none) (noCall : t ≠ .fixed .openParen) :
    Gives 0 (expression .standard .default) p (fun e' => e'.bare = e.bare) (t :: rest) := by
  have ends : Stratum.assignment.Ends (t :: rest) := Stratum.ends_of_loose loose noCall
  have enough := p.length_ahead_le
  rw [cut, List.length_append] at enough
  have reached := h.heads names p.remaining .default p _ (by decide) calm cut ends (by omega)
  exact reached.done ends.assignment_le

end MiniLang
