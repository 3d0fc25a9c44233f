import MiniLang.Proofs.Syntax.Parser.Ahead
import MiniLang.Proofs.Syntax.Parser.Logic

/-!
# Parsers in front of the same semicolon

Two parsers look at the same tokens up to a semicolon; behind it they have other tokens, and they
have drawn other numbers before and record in other sessions (`Neighbours.Beside`). Until they get
to the semicolon they do the same, step for step (`Neighbours.Together`): whatever an action does
short of taking it, it gives values that differ in the numbers of their nodes only, or it fails with
the same error. An action that takes the semicolon as the last thing leaves each parser in front of
what comes behind it there (`Neighbours.Behind`). Each way to put actions together has its rule.
Greater numbers are all that changes in a tree if numbers were drawn before (`Stmt.shift`).
-/

set_option autoImplicit false

namespace MiniLang

/-! ## Trees with other numbers -/

section

variable (n : Nat)

namespace Expr

mutual

/-- An expression whose nodes have numbers that are greater by `n`. -/
def shift : Expr → Expr
  | literal id span value => literal (id + n) span value
  | var id span name => var (id + n) span name
  | binary id span op left right => binary (id + n) span op (shift left) (shift right)
  | unary id span op operand => unary (id + n) span op (shift operand)
  | call id span callee calleeSpan arguments =>
    call (id + n) span callee calleeSpan (shiftAll arguments)
  | assignment id span target targetSpan value =>
    assignment (id + n) span target targetSpan (shift value)

/-- Expressions whose nodes have numbers that are greater by `n`. -/
def shiftAll : List Expr → List Expr
  | [] => []
  | e :: es => shift e :: shiftAll es

end

@[simp] theorem span_shift (e : Expr) : (e.shift n).span = e.span := by cases e <;> rfl

end Expr

/-- A parameter with a number that is greater by `n`. -/
def Param.shift (p : Param) : Param := { p with id := p.id + n }

/-- The header of a function with numbers that are greater by `n`. -/
def FunctionHeader.shift (f : FunctionHeader) : FunctionHeader :=
  { f with id := f.id + n, params := f.params.map (Param.shift n) }

namespace Stmt

mutual

/-- A statement whose nodes have numbers that are greater by `n`. -/
def shift : Stmt → Stmt
  | letVar id span name nameSpan declared value =>
    letVar (id + n) span name nameSpan declared (value.shift n)
  | ifThen span condition thenBlock => ifThen span (condition.shift n) (shiftBlock thenBlock)
  | ifThenElse span condition thenBlock elseBranch =>
    ifThenElse span (condition.shift n) (shiftBlock thenBlock) (shift elseBranch)
  | whileLoop span condition body => whileLoop span (condition.shift n) (shiftBlock body)
  | block b => block (shiftBlock b)
  | expression span value => expression span (value.shift n)
  | function span header body => function span (header.shift n) (shiftBlock body)
  | ret span value => ret span (value.map (Expr.shift n))
  | error span => error span

/-- A block whose nodes have numbers that are greater by `n`. -/
def shiftBlock : Block → Block
  | .mk id span body => .mk (id + n) span (shiftAll body)

/-- Statements whose nodes have numbers that are greater by `n`. -/
def shiftAll : List Stmt → List Stmt
  | [] => []
  | s :: ss => shift s :: shiftAll ss

end

end Stmt

end

/-! ## Segments -/

/-- A token that neither ends a statement nor belongs to a block. -/
def Token.Inner (t : Token) : Prop :=
  t.kind ∉ [TokenKind.semicolon, .openCurly, .closeCurly, .endOfInput]

/-- Tokens up to a semicolon, with no other semicolon, no brace and no end of the input. -/
inductive IsSegment : List Token → Prop
  | stop {t : Token} (semicolon : t.kind = .semicolon) : IsSegment [t]
  | cons {t : Token} {ts : List Token} (inner : t.Inner) (rest : IsSegment ts) :
      IsSegment (t :: ts)

namespace IsSegment

variable {t : Token} {ts : List Token}

theorem kind (h : IsSegment (t :: ts)) :
    t.kind ≠ .openCurly ∧ t.kind ≠ .closeCurly ∧ t.kind ≠ .endOfInput := by
  cases h with
  | stop semicolon =>
    rw [semicolon]
    decide
  | cons inner _ =>
    simp only [Token.Inner, List.mem_cons, not_or] at inner
    exact ⟨inner.2.1, inner.2.2.1, inner.2.2.2.1⟩

theorem tail (h : IsSegment (t :: ts)) (ne : t.kind ≠ .semicolon) : IsSegment ts := by
  cases h with
  | stop semicolon => exact absurd semicolon ne
  | cons _ rest => exact rest

theorem eq_nil_of_semicolon (h : IsSegment (t :: ts)) (is : t.kind = .semicolon) : ts = [] := by
  cases h with
  | stop _ => rfl
  | cons inner _ => exact absurd (by simp [is]) inner

theorem cons_iff :
    IsSegment (t :: ts) ↔ t.kind = .semicolon ∧ ts = [] ∨ t.Inner ∧ IsSegment ts := by
  constructor
  · rintro (semicolon | ⟨inner, rest⟩)
    · exact .inl ⟨semicolon, rfl⟩
    · exact .inr ⟨inner, rest⟩
  · rintro (⟨semicolon, rfl⟩ | ⟨inner, rest⟩)
    · exact .stop semicolon
    · exact .cons inner rest

instance decidable : ∀ ts : List Token, Decidable (IsSegment ts)
  | [] => isFalse (by rintro ⟨⟩)
  | t :: ts =>
    have : Decidable (IsSegment ts) := decidable ts
    have : Decidable t.Inner := inferInstanceAs (Decidable (_ ∉ _))
    decidable_of_iff _ cons_iff.symm

end IsSegment

namespace Parser

variable {p : Parser}

/-- A parser looks at the first of some deliveries, the others are to come, and `s` is its session
without what the first one brought. -/
def Faces : List Delivery → Session → Parser → Prop
  | [], s, p => p.atEnd = true ∧ p.session = s
  | d :: rest, s, p => p.current = d.token ∧ p.upcoming = rest ∧ p.session = d.notify s

/-- Taking a token leads in front of the next delivery. -/
theorem faces_advance (more : p.atEnd = false) : Faces p.upcoming p.session p.advance := by
  unfold advance
  rw [more, if_neg Bool.false_ne_true]
  cases p.upcoming with
  | nil => exact ⟨rfl, rfl⟩
  | cons d rest => exact ⟨rfl, rfl, rfl⟩

theorem Faces.setNextId {ds : List Delivery} {s : Session} (h : Faces ds s p) (n : NodeId) :
    Faces ds s { p with nextId := n } := by
  cases ds with
  | nil => exact h
  | cons d rest => exact h

theorem previousSpan_advance (more : p.atEnd = false) :
    p.advance.previousSpan = p.current.span := by
  unfold advance
  rw [more, if_neg Bool.false_ne_true]
  split <;> rfl

end Parser

/-- What two parsers in front of the same semicolon differ in: how many more numbers the first has
drawn, what comes behind the semicolon, and which sessions they began with. -/
structure Neighbours where
  shift : Nat
  more : List Delivery
  more' : List Delivery
  session : Session
  session' : Session

namespace Neighbours

/-- Two parsers look at the same tokens up to a semicolon, which comes after `n` others, and have
recorded the same. -/
structure Beside (c : Neighbours) (n : Nat) (p q : Parser) : Prop where
  current : p.current = q.current
  upcoming : ∃ rest : List Delivery, rest.length = n ∧ p.upcoming = rest ++ c.more ∧
    q.upcoming = rest ++ c.more' ∧ IsSegment (q.current :: rest.map Delivery.token) ∧
    ∀ d ∈ rest, d.cancels = false
  nextId : p.nextId = q.nextId + c.shift
  recorded : ∃ ds, p.session = c.session.recordAll ds ∧ q.session = c.session'.recordAll ds

/-- Two parsers have taken the semicolon and have recorded the same before. -/
structure Behind (c : Neighbours) (p q : Parser) : Prop where
  recorded : ∃ ds, Parser.Faces c.more (c.session.recordAll ds) p ∧
    Parser.Faces c.more' (c.session'.recordAll ds) q
  nextId : p.nextId = q.nextId + c.shift
  previousSpan : p.previousSpan = q.previousSpan

variable {c : Neighbours} {p q : Parser} {n : Nat}

namespace Beside

theorem kind (h : c.Beside n p q) :
    q.current.kind ≠ .openCurly ∧ q.current.kind ≠ .closeCurly ∧ q.current.kind ≠ .endOfInput := by
  obtain ⟨rest, -, -, -, segment, -⟩ := h.upcoming
  exact segment.kind

theorem atEnd (h : c.Beside n p q) : p.atEnd = false ∧ q.atEnd = false := by
  simp [Parser.atEnd, h.current, h.kind.2.2]

theorem remaining (h : c.Beside n p q) : n < p.remaining ∧ n < q.remaining := by
  obtain ⟨here, there⟩ := h.atEnd
  obtain ⟨rest, rfl, upcoming, upcoming', -⟩ := h.upcoming
  simp only [Parser.remaining, here, there, upcoming, upcoming', List.length_append]
  constructor <;> simp

/-- Taking a token before the semicolon. -/
theorem advance (h : c.Beside n p q) (ne : q.current.kind ≠ .semicolon) :
    ∃ m, n = m + 1 ∧ c.Beside m p.advance q.advance := by
  obtain ⟨here, there⟩ := h.atEnd
  obtain ⟨rest, rfl, upcoming, upcoming', segment, quiet⟩ := h.upcoming
  have segment := segment.tail ne
  cases rest with
  | nil => cases segment
  | cons d rest =>
    have silent := quiet d List.mem_cons_self
    obtain ⟨ds, same, same'⟩ := h.recorded
    rw [List.cons_append] at upcoming upcoming'
    simp only [Parser.advance, here, there, upcoming, upcoming', Bool.false_eq_true, ↓reduceIte]
    refine ⟨rest.length, rfl, rfl, ⟨rest, rfl, rfl, rfl, segment, fun x mem =>
      quiet x (List.mem_cons_of_mem _ mem)⟩, h.nextId, ds ++ d.diagnostics, ?_, ?_⟩
    · simp [Delivery.notify, silent, same, Session.recordAll]
    · simp [Delivery.notify, silent, same', Session.recordAll]

/-- Taking the semicolon. -/
theorem advance_semicolon (h : c.Beside n p q) (is : q.current.kind = .semicolon) :
    c.Behind p.advance q.advance := by
  obtain ⟨here, there⟩ := h.atEnd
  obtain ⟨rest, -, upcoming, upcoming', segment, quiet⟩ := h.upcoming
  obtain rfl := List.map_eq_nil_iff.1 (segment.eq_nil_of_semicolon is)
  obtain ⟨ds, same, same'⟩ := h.recorded
  refine ⟨⟨ds, ?_, ?_⟩, ?_, ?_⟩
  · rw [← same, ← List.nil_append c.more, ← upcoming]
    exact Parser.faces_advance here
  · rw [← same', ← List.nil_append c.more', ← upcoming']
    exact Parser.faces_advance there
  · rw [Parser.nextId_advance, Parser.nextId_advance]
    exact h.nextId
  · rw [Parser.previousSpan_advance here, Parser.previousSpan_advance there, h.current]

/-- Drawing a number. -/
theorem freshId (h : c.Beside n p q) :
    c.Beside n { p with nextId := p.nextId + 1 } { q with nextId := q.nextId + 1 } := by
  refine ⟨h.current, h.upcoming, ?_, h.recorded⟩
  exact (congrArg (· + 1) h.nextId).trans (Nat.add_right_comm q.nextId c.shift 1)

/-- Reporting the same error. -/
theorem report (h : c.Beside n p q) (e : SyntaxError) : c.Beside n (p.report e) (q.report e) := by
  unfold Parser.report
  split
  · exact h
  · obtain ⟨ds, same, same'⟩ := h.recorded
    refine ⟨h.current, h.upcoming, h.nextId, ds ++ [.of e.problem e.span], ?_, ?_⟩
    · simp [Session.report, Session.record, Session.recordAll, same]
    · simp [Session.report, Session.record, Session.recordAll, same']

end Beside

theorem Behind.freshId (h : c.Behind p q) :
    c.Behind { p with nextId := p.nextId + 1 } { q with nextId := q.nextId + 1 } := by
  obtain ⟨ds, faces, faces'⟩ := h.recorded
  refine ⟨⟨ds, ?_, ?_⟩, ?_, h.previousSpan⟩
  · exact faces.setNextId _
  · exact faces'.setNextId _
  · exact (congrArg (· + 1) h.nextId).trans (Nat.add_right_comm q.nextId c.shift 1)

/-! ## Actions -/

variable {α β : Type}

/-- Actions do the same at two parsers: both give values, of which `post` holds together with the
parsers afterwards, or both fail with the same error before the semicolon. -/
def Together (c : Neighbours) (action action' : Parse α) (post : α → α → Parser → Parser → Prop)
    (p q : Parser) : Prop :=
  match action p, action' q with
  | .ok a p', .ok a' q' => post a a' p' q'
  | .error e p', .error e' q' => (∃ n, c.Beside n p' q') ∧ e = e'
  | _, _ => False

/-- The parsers are still in front of the semicolon, which comes after at most `left` tokens. -/
structure Short (c : Neighbours) (left : Nat) (same : α → α → Prop) (a a' : α) (p q : Parser) :
    Prop where
  beside : ∃ n ≤ left, c.Beside n p q
  value : same a a'

/-- The parsers have taken the semicolon. -/
structure Done (c : Neighbours) (same : α → α → Prop) (a a' : α) (p q : Parser) : Prop where
  behind : c.Behind p q
  value : same a a'

namespace Together

variable {action action' : Parse α} {post post' : α → α → Parser → Parser → Prop}
  {after : β → β → Parser → Parser → Prop}

/-- Only what the actions do at the given parsers matters. -/
theorem of_eq {other other' : Parse α} {p' q' : Parser} (here : action p = other p')
    (there : action' q = other' q') (h : c.Together other other' post p' q') :
    c.Together action action' post p q := by
  unfold Together
  rw [here, there]
  exact h

/-- The rule of sequencing. -/
theorem bind {rest rest' : α → Parse β} (h : c.Together action action' post p q)
    (h' : ∀ a a' p' q', post a a' p' q' → c.Together (rest a) (rest' a') after p' q') :
    c.Together (action >>= rest) (action' >>= rest') after p q := by
  unfold Together at h
  cases result : action p <;> cases result' : action' q <;> rw [result, result'] at h
  case ok.ok a p' a' q' =>
    exact of_eq (Parse.bind_eq_of_ok result) (Parse.bind_eq_of_ok result') (h' a a' p' q' h)
  case error.error =>
    unfold Together
    rw [Parse.bind_eq_of_error result, Parse.bind_eq_of_error result']
    exact h
  all_goals exact h.elim

theorem imp (h : c.Together action action' post p q)
    (le : ∀ a a' p' q', post a a' p' q' → post' a a' p' q') :
    c.Together action action' post' p q := by
  unfold Together at h ⊢
  cases result : action p <;> cases result' : action' q <;> rw [result, result'] at h
  case ok.ok => exact le _ _ _ _ h
  case error.error => exact h
  all_goals exact h.elim

theorem pure {a a' : α} (h : post a a' p q) : c.Together (pure a) (pure a') post p q := h

/-- The rule of applying a function to the value. -/
theorem map {f : α → β}
    (h : c.Together action action' (fun a a' => after (f a) (f a')) p q) :
    c.Together (f <$> action) (f <$> action') after p q := by
  change c.Together (action >>= fun a => Pure.pure (f a)) (action' >>= fun a => Pure.pure (f a))
    after p q
  exact h.bind fun _ _ _ _ related => .pure related

/-- The rule of a choice by a test. -/
theorem ite {test : Prop} [Decidable test] {yes yes' no no' : Parse α}
    (h : test → c.Together yes yes' post p q) (h' : ¬test → c.Together no no' post p q) :
    c.Together (if test then yes else no) (if test then yes' else no') post p q := by
  by_cases holds : test
  · rw [if_pos holds, if_pos holds]
    exact h holds
  · rw [if_neg holds, if_neg holds]
    exact h' holds

/-- Nodes are numbered alike, up to what the first parser has drawn before. -/
theorem freshId {rest rest' : NodeId → Parse β} (number : p.nextId = q.nextId + c.shift)
    (h : ∀ id : NodeId, c.Together (rest (id + c.shift)) (rest' id) after
      { p with nextId := p.nextId + 1 } { q with nextId := q.nextId + 1 }) :
    c.Together (Parse.freshId >>= rest) (Parse.freshId >>= rest') after p q :=
  of_eq (congrArg (fun id => rest id { p with nextId := p.nextId + 1 }) number) rfl
    (h q.nextId)

/-- How many blocks are open may differ, where this does not matter. -/
theorem openBlocks {rest rest' : Nat → Parse β}
    (h : ∀ n n', c.Together (rest n) (rest' n') after p q) :
    c.Together (Parse.blockDepth >>= rest) (Parse.blockDepth >>= rest') after p q := h _ _

variable (beside : c.Beside n p q)

include beside

/-- Both parsers look at the same token. -/
theorem kind {rest rest' : TokenKind → Parse β}
    (h : c.Together (rest q.current.kind) (rest' q.current.kind) after p q) :
    c.Together (Parse.currentKind >>= rest) (Parse.currentKind >>= rest') after p q :=
  of_eq (congrArg (fun t : Token => rest t.kind p) beside.current) rfl h

/-- The rule of failing. -/
theorem fail {e : SyntaxError} : c.Together (throw e : Parse α) (throw e) post p q :=
  ⟨⟨n, beside⟩, rfl⟩

/-- Failing at the current token. -/
theorem unexpectedHere {expected : String} :
    c.Together (fun p => .error (.unexpected expected p.current) p : Parse α)
      (fun q => .error (.unexpected expected q.current) q) post p q :=
  ⟨⟨n, beside⟩, congrArg (SyntaxError.unexpected expected) beside.current⟩

/-- Loops whose bounds are greater than the number of tokens before the semicolon. -/
theorem bounded {loop loop' : Nat → Parse α}
    (h : ∀ fuel fuel', n < fuel → n < fuel' → c.Together (loop fuel) (loop' fuel') post p q) :
    c.Together (Parse.bounded loop) (Parse.bounded loop') post p q :=
  h _ _ (beside.remaining.1.trans (Nat.lt_succ_self _))
    (beside.remaining.2.trans (Nat.lt_succ_self _))

/-- Taking a token before the semicolon. -/
theorem advance {rest rest' : Token → Parse β} (ne : q.current.kind ≠ .semicolon)
    (h : ∀ m, n = m + 1 → c.Beside m p.advance q.advance →
      c.Together (rest q.current) (rest' q.current) after p.advance q.advance) :
    c.Together (Parse.advance >>= rest) (Parse.advance >>= rest') after p q := by
  obtain ⟨m, fewer, next⟩ := beside.advance ne
  exact of_eq (congrArg (fun t : Token => rest t p.advance) beside.current) rfl (h m fewer next)

/-- Both parsers find a token of the kind that they expect, or none of them does. -/
theorem expectWith {kind : TokenKind} {expected : String} {rest rest' : Token → Parse β}
    (h : q.current.kind = kind →
      c.Together (rest q.current) (rest' q.current) after p.advance q.advance) :
    c.Together (Parse.expect kind expected >>= rest) (Parse.expect kind expected >>= rest')
      after p q := by
  by_cases is : q.current.kind = kind
  · have here : Parse.expect kind expected p = .ok q.current p.advance := by
      rw [← beside.current] at is ⊢
      exact if_pos is
    have there : Parse.expect kind expected q = .ok q.current q.advance := if_pos is
    exact of_eq (Parse.bind_eq_of_ok here) (Parse.bind_eq_of_ok there) (h is)
  · have here : Parse.expect kind expected p = .error (.unexpected expected q.current) p := by
      rw [← beside.current] at is ⊢
      exact if_neg is
    have there : Parse.expect kind expected q = .error (.unexpected expected q.current) q :=
      if_neg is
    unfold Together
    rw [Parse.bind_eq_of_error here, Parse.bind_eq_of_error there]
    exact ⟨⟨n, beside⟩, rfl⟩

theorem expect {kind : TokenKind} {expected : String} {rest rest' : Token → Parse β}
    (ne : kind ≠ .semicolon)
    (h : ∀ m, n = m + 1 → q.current.kind = kind → c.Beside m p.advance q.advance →
      c.Together (rest q.current) (rest' q.current) after p.advance q.advance) :
    c.Together (Parse.expect kind expected >>= rest) (Parse.expect kind expected >>= rest')
      after p q := by
  refine expectWith beside fun is => ?_
  obtain ⟨m, fewer, next⟩ := beside.advance (is ▸ ne)
  exact h m fewer is next

/-- The semicolon. -/
theorem expectSemicolon {expected : String} {rest rest' : Token → Parse β}
    (h : c.Behind p.advance q.advance →
      c.Together (rest q.current) (rest' q.current) after p.advance q.advance) :
    c.Together (Parse.expect .semicolon expected >>= rest)
      (Parse.expect .semicolon expected >>= rest') after p q :=
  expectWith beside fun is => h (beside.advance_semicolon is)

/-- The end of the input is not found in front of a semicolon. -/
theorem expectClosing {kind : TokenKind} {expected construct : String} {opening : Token}
    {rest rest' : Token → Parse β} (ne : kind ≠ .semicolon)
    (h : ∀ m, n = m + 1 → q.current.kind = kind → c.Beside m p.advance q.advance →
      c.Together (rest q.current) (rest' q.current) after p.advance q.advance) :
    c.Together (Parse.expectClosing kind expected construct opening >>= rest)
      (Parse.expectClosing kind expected construct opening >>= rest') after p q := by
  obtain ⟨here, there⟩ := beside.atEnd
  have same : ∀ r : Parser, r.atEnd = false → ∀ rest : Token → Parse β,
      (Parse.expectClosing kind expected construct opening >>= rest) r =
        (Parse.expect kind expected >>= rest) r := by
    intro r more rest
    have first : Parse.expectClosing kind expected construct opening r =
        Parse.expect kind expected r := if_neg (by simp [more])
    change EStateM.bind _ rest r = EStateM.bind _ rest r
    rw [EStateM.bind, EStateM.bind, first]
  exact of_eq (same p here rest) (same q there rest') (expect beside ne h)

/-- A node is numbered when all below it is read. -/
theorem node {f f' : NodeId → α} {same : α → α → Prop} {left : Nat}
    (le : n ≤ left) (h : ∀ id, same (f (id + c.shift)) (f' id)) :
    c.Together (do return f (← Parse.freshId)) (do return f' (← Parse.freshId))
      (c.Short left same) p q :=
  .freshId beside.nextId fun id => .pure ⟨⟨n, le, beside.freshId⟩, h id⟩

end Together

end Neighbours

end MiniLang
