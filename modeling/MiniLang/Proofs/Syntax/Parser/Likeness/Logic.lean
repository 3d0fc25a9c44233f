import MiniLang.Proofs.Syntax.View
import MiniLang.Syntax.Parser.Statement

/-!
# Parsers that cannot be told apart

Two parsers may differ in what they look at and in what they record and still do the same, step for
step. A comparison says which states, tokens and problems belong together (`Comparison`). If taking
a token, drawing a number and reporting a problem keep states together (`Comparison.Lawful`), then
actions that are put together in the same way from the same steps succeed and fail together, with
trees that look alike (`Comparison.Alike`). Each way to put actions together has its rule.
-/

set_option autoImplicit false

namespace MiniLang

/-- How two parsers are compared: what is seen of their trees, which tokens and which problems may
stand for each other, and which states belong together. -/
structure Comparison extends View where
  token : Token → Token → Prop
  problem : Problem → Problem → Prop
  state : Parser → Parser → Prop

namespace Comparison

/-- Syntax errors that are reported alike. -/
structure SameError (c : Comparison) (e e' : SyntaxError) : Prop where
  silent : e.silent = e'.silent
  problem : c.problem e.problem e'.problem
  span : c.span e.span = c.span e'.span

/-- What parsers do cannot tell states that belong together apart, and keeps them together. -/
structure Lawful (c : Comparison) : Prop where
  join {a a' b b' : Span} (h : c.span a = c.span a') (h' : c.span b = c.span b') :
    c.span (a.join b) = c.span (a'.join b')
  kind {t t' : Token} (h : c.token t t') : t.kind = t'.kind
  tokenSpan {t t' : Token} (h : c.token t t') : c.span t.span = c.span t'.span
  name {t t' : Token} (h : c.token t t') : c.name t.text = c.name t'.text
  integer {t t' : Token} (h : c.token t t') (is : t.kind = .integer) :
    Integer.parse? t.text.toList = Integer.parse? t'.text.toList
  overflow {t t' : Token} (h : c.token t t') (is : t.kind = .integer)
    (none : Integer.parse? t.text.toList = none) :
    c.problem (.integerOverflow t.text) (.integerOverflow t'.text)
  unexpected {t t' : Token} (h : c.token t t') (expected : String) :
    c.problem (.unexpectedToken expected t.shown) (.unexpectedToken expected t'.shown)
  unterminated (construct : String) : c.problem (.unterminated construct) (.unterminated construct)
  target : c.problem .invalidAssignmentTarget .invalidAssignmentTarget
  nested {n n' : String} (h : c.name n = c.name n') :
    c.problem (.nestedFunction n) (.nestedFunction n')
  current {p q : Parser} (h : c.state p q) : c.token p.current q.current
  previousSpan {p q : Parser} (h : c.state p q) : c.span p.previousSpan = c.span q.previousSpan
  consumed {p q : Parser} (h : c.state p q) : p.consumed = q.consumed
  nextId {p q : Parser} (h : c.state p q) : p.nextId = q.nextId
  blockDepth {p q : Parser} (h : c.state p q) : p.blockDepth = q.blockDepth
  reportedEnd {p q : Parser} (h : c.state p q) : p.reportedEnd = q.reportedEnd
  remaining {p q : Parser} (h : c.state p q) : p.remaining = q.remaining
  advance {p q : Parser} (h : c.state p q) : c.state p.advance q.advance
  setNextId {p q : Parser} (h : c.state p q) (n : NodeId) :
    c.state { p with nextId := n } { q with nextId := n }
  setBlockDepth {p q : Parser} (h : c.state p q) (n : Nat) :
    c.state { p with blockDepth := n } { q with blockDepth := n }
  setReportedEnd {p q : Parser} (h : c.state p q) :
    c.state { p with reportedEnd := true } { q with reportedEnd := true }
  report {p q : Parser} (h : c.state p q) {a a' : Problem} (same : c.problem a a') {s s' : Span}
    (place : c.span s = c.span s') :
    c.state { p with session := p.session.report a s }
      { q with session := q.session.report a' s' }

/-- Actions do the same to states that belong together: both give values that are related by `same`,
or both fail alike. -/
def Alike (c : Comparison) {α : Type} (action action' : Parse α) (same : α → α → Prop) : Prop :=
  ∀ p q, c.state p q →
    match action p, action' q with
    | .ok a p', .ok a' q' => c.state p' q' ∧ same a a'
    | .error e p', .error e' q' => c.state p' q' ∧ c.SameError e e'
    | _, _ => False

namespace Alike

variable {c : Comparison} {α β : Type} {action action' : Parse α} {same : α → α → Prop}
  {after : β → β → Prop}

/-- The rule of sequencing. -/
theorem bind {rest rest' : α → Parse β} (h : c.Alike action action' same)
    (h' : ∀ a a', same a a' → c.Alike (rest a) (rest' a') after) :
    c.Alike (action >>= rest) (action' >>= rest') after := by
  intro p q together
  have first := h p q together
  change match EStateM.bind action rest p, EStateM.bind action' rest' q with
    | .ok a p', .ok a' q' => _
    | .error e p', .error e' q' => _
    | _, _ => False
  unfold EStateM.bind
  cases result : action p <;> cases result' : action' q <;> rw [result, result'] at first
  case ok.ok a p' a' q' => exact h' a a' first.2 p' q' first.1
  case error.error => exact first
  all_goals exact first.elim

theorem pure {a a' : α} (h : same a a') : c.Alike (pure a) (pure a') same :=
  fun _ _ together => ⟨together, h⟩

/-- The rule of applying a function to the value. -/
theorem map {f f' : α → β} (h : c.Alike action action' same)
    (h' : ∀ a a', same a a' → after (f a) (f' a')) :
    c.Alike (f <$> action) (f' <$> action') after := by
  change c.Alike (action >>= fun a => Pure.pure (f a)) (action' >>= fun a => Pure.pure (f' a)) after
  exact h.bind fun a a' related => .pure (h' a a' related)

/-- The rule of a choice by a test. -/
theorem ite {test : Prop} [Decidable test] {yes yes' no no' : Parse α}
    (h : test → c.Alike yes yes' same) (h' : ¬test → c.Alike no no' same) :
    c.Alike (if test then yes else no) (if test then yes' else no') same := by
  by_cases holds : test
  · rw [if_pos holds, if_pos holds]
    exact h holds
  · rw [if_neg holds, if_neg holds]
    exact h' holds

/-- The rule of failing. -/
theorem fail {e e' : SyntaxError} (h : c.SameError e e') :
    c.Alike (throw e : Parse α) (throw e') same :=
  fun _ _ together => ⟨together, h⟩

end Alike

/-! ## Steps -/

namespace Lawful

open Parse

variable {c : Comparison} {α : Type} {p q : Parser} {same : α → α → Prop}

theorem atEnd (law : c.Lawful) (h : c.state p q) : p.atEnd = q.atEnd := by
  rw [Parser.atEnd, Parser.atEnd, law.kind (law.current h)]

theorem sameUnexpected (law : c.Lawful) {t t' : Token} (h : c.token t t') (expected : String) :
    c.SameError (.unexpected expected t) (.unexpected expected t') := by
  refine ⟨?_, law.unexpected h expected, law.tokenSpan h⟩
  change (t.kind == .unknown) = (t'.kind == .unknown)
  rw [law.kind h]

theorem reportError (law : c.Lawful) (h : c.state p q) {e e' : SyntaxError}
    (same : c.SameError e e') : c.state (p.report e) (q.report e') := by
  unfold Parser.report
  rw [same.silent]
  split
  · exact h
  · exact law.report h same.problem same.span

theorem alike_advance (law : c.Lawful) : c.Alike Parse.advance Parse.advance c.token :=
  fun _ _ together => ⟨law.advance together, law.current together⟩

theorem alike_currentKind (law : c.Lawful) : c.Alike currentKind currentKind Eq :=
  fun _ _ together => ⟨together, law.kind (law.current together)⟩

theorem alike_freshId (law : c.Lawful) : c.Alike freshId freshId Eq := by
  intro p q together
  refine ⟨?_, law.nextId together⟩
  rw [law.nextId together]
  exact law.setNextId together _

theorem alike_previousSpan (law : c.Lawful) :
    c.Alike Parse.previousSpan Parse.previousSpan fun s s' => c.span s = c.span s' :=
  fun _ _ together => ⟨together, law.previousSpan together⟩

theorem alike_blockDepth (law : c.Lawful) : c.Alike Parse.blockDepth Parse.blockDepth Eq :=
  fun _ _ together => ⟨together, law.blockDepth together⟩

/-- Failing at the current token. -/
theorem alike_unexpectedHere (law : c.Lawful) (expected : String) :
    c.Alike (fun p => .error (.unexpected expected p.current) p)
      (fun p => .error (.unexpected expected p.current) p) same :=
  fun _ _ together => ⟨together, law.sameUnexpected (law.current together) expected⟩

theorem alike_expect (law : c.Lawful) (kind : TokenKind) (expected : String) :
    c.Alike (expect kind expected) (expect kind expected) c.token := by
  intro p q together
  have here := law.current together
  unfold expect
  by_cases is : q.current.kind = kind
  · rw [if_pos is, if_pos ((law.kind here).trans is)]
    exact ⟨law.advance together, here⟩
  · rw [if_neg is, if_neg fun is' => is ((law.kind here).symm.trans is')]
    exact ⟨together, law.sameUnexpected here expected⟩

theorem alike_failUnterminated (law : c.Lawful) (construct : String) {opening opening' : Token}
    (h : c.token opening opening') :
    c.Alike (failUnterminated construct opening) (failUnterminated construct opening') same := by
  intro p q together
  exact ⟨law.setReportedEnd together, law.reportedEnd together, law.unterminated construct,
    law.tokenSpan h⟩

theorem alike_expectClosing (law : c.Lawful) (kind : TokenKind) (expected construct : String)
    {opening opening' : Token} (h : c.token opening opening') :
    c.Alike (expectClosing kind expected construct opening)
      (expectClosing kind expected construct opening') c.token := by
  intro p q together
  unfold expectClosing
  rw [law.atEnd together]
  by_cases ends : q.atEnd = true
  · have failing : c.Alike (failUnterminated construct opening)
        (failUnterminated construct opening') c.token := law.alike_failUnterminated construct h
    rw [if_pos ends, if_pos ends]
    exact failing p q together
  · rw [if_neg ends, if_neg ends]
    exact law.alike_expect kind expected p q together

theorem alike_complain (law : c.Lawful) {a a' : Problem} (h : c.problem a a') {s s' : Span}
    (h' : c.span s = c.span s') : c.Alike (complain a s) (complain a' s') fun _ _ => True :=
  fun _ _ together => ⟨law.report together h h', trivial⟩

/-- The rule of loops whose rounds are bounded by the tokens that are left. -/
theorem alike_bounded (law : c.Lawful) {action action' : Nat → Parse α}
    (h : ∀ n, c.Alike (action n) (action' n) same) :
    c.Alike (bounded action) (bounded action') same := by
  intro p q together
  unfold bounded
  rw [law.remaining together]
  exact h _ p q together

end Lawful

end Comparison

end MiniLang
