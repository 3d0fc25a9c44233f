import MiniLang.Proofs.Syntax.Grammar
import MiniLang.Proofs.Session.Progress
import MiniLang.Syntax.Parser.Statement

/-!
# What a parser sees ahead

The tokens between a parser and the end of the input (`Parser.pending`), their terminals
(`Parser.ahead`), and what all of its actions do with them: they take some from the front, count
these, and take no error back (`Parser.Onward`).
`Parse.Meets` says in addition what holds of a value, and that an action that fails complains. The
complaint is left out only where there was one before: about an unknown token, the end of the input
or a cancellation. A parser that has met none of them is `Parser.Loud`.
-/

set_option autoImplicit false

namespace MiniLang

namespace Parser

/-- The terminals before the end of the input, the current token included. -/
def ahead (p : Parser) : List Terminal := terminals (p.current :: p.upcoming.map Delivery.token)

/-- The tokens before the end of the input, the current one included. -/
def pending (p : Parser) : List Token :=
  (p.current :: p.upcoming.map Delivery.token).takeWhile (·.kind ≠ .endOfInput)

variable {p q r : Parser}

theorem ahead_eq_map_pending (p : Parser) : p.ahead = p.pending.map Token.terminal := rfl

theorem length_ahead (p : Parser) : p.ahead.length = p.pending.length := by
  rw [ahead_eq_map_pending, List.length_map]

theorem pending_of_atEnd (h : p.atEnd = true) : p.pending = [] := by
  have kind : p.current.kind = .endOfInput := beq_iff_eq.1 h
  simp [pending, kind]

theorem pending_of_not_atEnd (h : p.atEnd = false) :
    p.pending = p.current :: p.advance.pending := by
  have kind : p.current.kind ≠ .endOfInput := by simpa [atEnd] using h
  cases more : p.upcoming with
  | nil => simp [pending, advance, h, more, kind, Token.endAt]
  | cons d rest => simp [pending, advance, h, more, kind]

/-- The first token that is pending is the current one, and taking it leaves the others. -/
theorem of_pending_eq_cons {t : Token} {rest : List Token} (h : p.pending = t :: rest) :
    p.atEnd = false ∧ p.current = t ∧ p.advance.pending = rest := by
  cases atEnd : p.atEnd with
  | true =>
    rw [pending_of_atEnd atEnd] at h
    cases h
  | false =>
    rw [pending_of_not_atEnd atEnd] at h
    exact ⟨rfl, List.cons.inj h⟩

/-- The tokens that are pending for a parser that looks at one of them. -/
theorem pending_of_kind {kind : TokenKind} (h : p.current.kind = kind)
    (more : kind ≠ .endOfInput) : p.pending = p.current :: p.advance.pending :=
  pending_of_not_atEnd (by simpa [atEnd, h] using more)

theorem ahead_of_atEnd (h : p.atEnd = true) : p.ahead = [] := by
  rw [ahead_eq_map_pending, pending_of_atEnd h]
  rfl

theorem ahead_of_not_atEnd (h : p.atEnd = false) :
    p.ahead = p.current.terminal :: p.advance.ahead := by
  rw [ahead_eq_map_pending, pending_of_not_atEnd h]
  rfl

theorem atEnd_of_ahead_eq_nil (h : p.ahead = []) : p.atEnd = true := by
  cases atEnd : p.atEnd with
  | true => rfl
  | false =>
    rw [ahead_of_not_atEnd atEnd] at h
    cases h

/-- The first terminal ahead is that of the current token, and taking it leaves the others. -/
theorem of_ahead_eq_cons {t : Terminal} {rest : List Terminal} (h : p.ahead = t :: rest) :
    p.atEnd = false ∧ p.current.terminal = t ∧ p.advance.ahead = rest := by
  cases atEnd : p.atEnd with
  | true =>
    rw [ahead_of_atEnd atEnd] at h
    cases h
  | false =>
    rw [ahead_of_not_atEnd atEnd] at h
    exact ⟨rfl, List.cons.inj h⟩

theorem kind_of_ahead_eq_cons {t : Terminal} {rest : List Terminal} (h : p.ahead = t :: rest) :
    p.current.kind = t.kind := by
  obtain ⟨-, same, -⟩ := of_ahead_eq_cons h
  rw [← same, Token.kind_terminal]

/-- The terminals ahead of a parser that looks at a token of a known kind. -/
theorem ahead_of_kind {kind : TokenKind} (h : p.current.kind = kind)
    (ne : kind ≠ .identifier ∧ kind ≠ .integer) (more : kind ≠ .endOfInput) :
    p.ahead = .fixed kind :: p.advance.ahead := by
  have atEnd : p.atEnd = false := by simpa [atEnd, h] using more
  rw [ahead_of_not_atEnd atEnd, Token.terminal_of_kind h ne]

/-- Every terminal ahead is left to be taken. -/
theorem length_ahead_le (p : Parser) : p.ahead.length ≤ p.remaining := by
  cases atEnd : p.atEnd with
  | true => simp [ahead_of_atEnd atEnd]
  | false =>
    have all : p.ahead.length ≤ p.upcoming.length + 1 := by
      unfold ahead terminals
      rw [List.length_map]
      exact ((List.takeWhile_prefix _).length_le).trans (by simp)
    simpa [remaining, atEnd] using all

/-- How tightly the next token binds what stands before it. -/
def pull (p : Parser) : Nat := (Grammar.standard.bindingPower p.current.kind).level

theorem pull_of_infixRule {power : BindingPower} {rule : InfixRule}
    (h : Grammar.standard.infixRule p.current.kind = some (power, rule)) :
    p.pull = power.level := by
  simp [pull, Grammar.bindingPower, h]

theorem pull_of_infixRule_eq_none (h : Grammar.standard.infixRule p.current.kind = none) :
    p.pull = 0 := by
  simp [pull, Grammar.bindingPower, h, BindingPower.level]

/-- How many errors were found. -/
def errors (p : Parser) : Nat := p.session.errorCount

/-- Nothing that was found or is ahead makes an error silent. -/
structure Loud (p : Parser) : Prop where
  known : ∀ t ∈ p.ahead, t.kind ≠ .unknown
  unreported : p.reportedEnd = false
  uncancelled : p.session.cancelled = false

/-- A parser has taken tokens from the front of those pending, counted them, taken no error back,
and is inside of as many blocks as before. -/
structure Onward (p q : Parser) : Prop where
  pending : q.pending <:+ p.pending
  consumed : q.consumed + q.ahead.length = p.consumed + p.ahead.length
  blockDepth : q.blockDepth = p.blockDepth
  errors : p.errors ≤ q.errors
  reportedEnd : q.reportedEnd = true → p.reportedEnd = true ∨ p.errors < q.errors
  cancelled : q.session.cancelled = true → p.session.cancelled = true ∨ p.errors < q.errors

namespace Onward

theorem ahead (h : Onward p q) : q.ahead <:+ p.ahead := h.pending.map _

theorem refl (p : Parser) : Onward p p := ⟨List.suffix_refl _, rfl, rfl, le_rfl, .inl, .inl⟩

theorem trans (h : Onward p q) (h' : Onward q r) : Onward p r := by
  have chain : ∀ {a b c : Prop}, (c → b ∨ q.errors < r.errors) → (b → a ∨ p.errors < q.errors) →
      c → a ∨ p.errors < r.errors := by
    intro a b c second first holds
    rcases second holds with before | more
    · rcases first before with start | more
      · exact .inl start
      · exact .inr (more.trans_le h'.errors)
    · exact .inr (h.errors.trans_lt more)
  exact ⟨h'.pending.trans h.pending, h'.consumed.trans h.consumed, h'.blockDepth.trans h.blockDepth,
    h.errors.trans h'.errors, chain h'.reportedEnd h.reportedEnd, chain h'.cancelled h.cancelled⟩

/-- A parser stays loud as long as it finds no error. -/
theorem loud (h : Onward p q) (loud : p.Loud) (same : q.errors = p.errors) : q.Loud := by
  have stays : ∀ {now before : Bool}, (now = true → before = true ∨ p.errors < q.errors) →
      before = false → now = false := by
    intro now before leads start
    cases now with
    | false => rfl
    | true =>
      rcases leads rfl with already | more
      · rw [start] at already
        cases already
      · omega
  exact ⟨fun t mem => loud.known t (h.ahead.subset mem), stays h.reportedEnd loud.unreported,
    stays h.cancelled loud.uncancelled⟩

theorem length_le (h : Onward p q) : q.ahead.length ≤ p.ahead.length := h.ahead.length_le

end Onward

theorem errorCount_notify (d : Delivery) (s : Session) :
    s.errorCount ≤ (d.notify s).errorCount := by
  unfold Delivery.notify
  split <;> simp [Session.errorCount, Diagnostics.errorCount, Session.cancel, List.countP_append]

theorem cancelled_notify (d : Delivery) (s : Session) :
    (d.notify s).cancelled = s.cancelled := by
  unfold Delivery.notify
  split <;> rfl

/-- Taking a token. -/
theorem onward_advance (p : Parser) : Onward p p.advance := by
  cases atEnd : p.atEnd with
  | true =>
    have same : p.advance = p := by simp [advance, atEnd]
    rw [same]
    exact .refl p
  | false =>
    have cut := ahead_of_not_atEnd atEnd
    have taken : p.advance.consumed = p.consumed + 1 := by
      cases more : p.upcoming <;> simp [advance, atEnd, more]
    refine ⟨⟨[p.current], (pending_of_not_atEnd atEnd).symm⟩, ?_, ?_, ?_, ?_, ?_⟩
    · rw [taken, cut, List.length_cons]
      omega
    · cases more : p.upcoming <;> simp [advance, atEnd, more]
    · cases more : p.upcoming with
      | nil => simp [errors, advance, atEnd, more]
      | cons d rest =>
        simp only [errors, advance, atEnd, more, Bool.false_eq_true, ↓reduceIte]
        exact errorCount_notify d p.session
    · intro reported
      left
      cases more : p.upcoming <;> simpa [advance, atEnd, more] using reported
    · intro seen
      left
      cases more : p.upcoming <;> simpa [advance, atEnd, more, cancelled_notify] using seen

theorem length_ahead_advance_lt (h : p.atEnd = false) :
    p.advance.ahead.length < p.ahead.length := by
  rw [ahead_of_not_atEnd h, List.length_cons]
  omega

theorem errorCount_report (s : Session) (problem : Problem) (span : Span) :
    (s.report problem span).errorCount = s.errorCount + if problem.isWarning then 0 else 1 := by
  simp only [Session.report, Session.errorCount, Session.diagnostics_record,
    Diagnostics.errorCount, List.countP_append, List.countP_singleton, Diagnostic.isError_of]
  cases problem.isWarning <;> rfl

/-- Another session with no fewer errors. -/
theorem onward_session {s : Session} (h : p.errors ≤ s.errorCount)
    (cancelled : s.cancelled = true → p.session.cancelled = true ∨ p.errors < s.errorCount) :
    Onward p { p with session := s } :=
  ⟨List.suffix_refl _, rfl, rfl, h, .inl, cancelled⟩

theorem onward_report (p : Parser) (e : SyntaxError) : Onward p (p.report e) := by
  unfold report
  split
  · exact .refl p
  · refine onward_session ?_ .inl
    rw [errorCount_report]
    exact Nat.le_add_right ..

theorem errors_lt_report {e : SyntaxError} (loud : e.silent = false)
    (isError : e.problem.isWarning = false) : p.errors < (p.report e).errors := by
  unfold report errors
  rw [loud, if_neg Bool.false_ne_true, errorCount_report, isError]
  exact Nat.lt_succ_self _

/-- A token is known if all terminals ahead are. -/
theorem Loud.current (h : p.Loud) : p.current.kind ≠ .unknown := by
  intro unknown
  have cut := ahead_of_kind unknown (by decide) (by decide)
  exact h.known (.fixed .unknown) (by rw [cut]; exact List.mem_cons_self) rfl

end Parser

namespace Parse

open MiniLang.Parser

variable {α β : Type} {p q : Parser}

/-- What comes after an action that gives a value. -/
theorem bind_eq_of_ok {action : Parse α} {rest : α → Parse β} {a : α} (h : action p = .ok a q) :
    (action >>= rest) p = rest a q := by
  change EStateM.bind action rest p = _
  rw [EStateM.bind, h]

/-- Nothing comes after an action that fails. -/
theorem bind_eq_of_error {action : Parse α} {rest : α → Parse β} {e : SyntaxError}
    (h : action p = .error e q) : (action >>= rest) p = .error e q := by
  change EStateM.bind action rest p = _
  rw [EStateM.bind, h]

/-- An action moves a parser onward. If it gives a value, then `post` holds of that and of the
parser afterwards; if it fails, then it has found an error, which a loud parser reports. -/
def Meets (action : Parse α) (p : Parser) (post : α → Parser → Prop) : Prop :=
  match action p with
  | .ok a q => Onward p q ∧ post a q
  | .error e q => Onward p (q.report e) ∧ (p.Loud → p.errors < (q.report e).errors)

namespace Meets

variable {post post' : α → Parser → Prop} {after : β → Parser → Prop}

theorem of_eq {action action' : Parse α} (same : action p = action' p)
    (h : Meets action' p post) : Meets action p post := by
  unfold Meets
  rw [same]
  exact h

/-- What is met at a parser further on is met here. -/
theorem onward {action : Parse α} {action' : Parse α} (step : Onward p q)
    (same : action p = action' q) (h : Meets action' q post) : Meets action p post := by
  unfold Meets at h ⊢
  rw [same]
  cases result : action' q with
  | ok a r =>
    rw [result] at h
    exact ⟨step.trans h.1, h.2⟩
  | error e r =>
    rw [result] at h
    refine ⟨step.trans h.1, fun loud => ?_⟩
    rcases Nat.eq_or_lt_of_le step.errors with unchanged | more
    · have := h.2 (step.loud loud unchanged.symm)
      omega
    · exact more.trans_le h.1.errors

/-- The rule of sequencing. -/
theorem bind {action : Parse α} {rest : α → Parse β} (h : Meets action p post)
    (h' : ∀ a q, Onward p q → post a q → Meets (rest a) q after) :
    Meets (action >>= rest) p after := by
  unfold Meets at h
  cases result : action p with
  | ok a q =>
    rw [result] at h
    exact onward h.1 (bind_eq_of_ok result) (h' a q h.1 h.2)
  | error e q =>
    rw [result] at h
    unfold Meets
    rw [bind_eq_of_error result]
    exact h

theorem imp {action : Parse α} (h : Meets action p post)
    (le : ∀ a q, Onward p q → post a q → post' a q) : Meets action p post' := by
  unfold Meets at h ⊢
  cases result : action p with
  | ok a q =>
    rw [result] at h
    exact ⟨h.1, le a q h.1 h.2⟩
  | error e q =>
    rw [result] at h
    exact h

theorem pure {a : α} (h : post a p) : Meets (pure a) p post := ⟨.refl p, h⟩

theorem map {action : Parse α} {f : α → β} (h : Meets action p fun a q => after (f a) q) :
    Meets (f <$> action) p after := by
  change Meets (action >>= fun a => Pure.pure (f a)) p after
  exact bind h fun _ _ _ ready => .pure ready

theorem kind {rest : TokenKind → Parse β} (h : Meets (rest p.current.kind) p after) :
    Meets (currentKind >>= rest) p after := h

theorem lastSpan {rest : Span → Parse β} (h : Meets (rest p.previousSpan) p after) :
    Meets (previousSpan >>= rest) p after := h

theorem depth {rest : Nat → Parse β} (h : Meets (rest p.blockDepth) p after) :
    Meets (blockDepth >>= rest) p after := h

theorem advance {rest : Token → Parse β} (h : Meets (rest p.current) p.advance after) :
    Meets (advance >>= rest) p after := onward (onward_advance p) rfl h

/-- What is done after a token was taken leaves fewer than there were. -/
theorem shorter {action : Parse α} (more : p.atEnd = false)
    (h : Meets action p.advance post) :
    Meets action p.advance fun a q => q.ahead.length < p.ahead.length ∧ post a q :=
  h.imp fun _ _ step holds => ⟨step.length_le.trans_lt (length_ahead_advance_lt more), holds⟩

theorem freshId {rest : NodeId → Parse β}
    (h : ∀ q : Parser, Onward p q → q.pending = p.pending → q.current = p.current →
      q.previousSpan = p.previousSpan → Meets (rest p.nextId) q after) :
    Meets (freshId >>= rest) p after := by
  have step : Onward p { p with nextId := p.nextId + 1 } :=
    ⟨List.suffix_refl _, rfl, rfl, le_rfl, .inl, .inl⟩
  exact onward step rfl (h _ step rfl rfl rfl)

theorem ite {c : Prop} [Decidable c] {yes no : Parse α} (h : c → Meets yes p post)
    (h' : ¬c → Meets no p post) : Meets (if c then yes else no) p post := by
  by_cases test : c
  · rw [if_pos test]
    exact h test
  · rw [if_neg test]
    exact h' test

/-- The rule of failing. -/
theorem fail {action : Parse α} {e : SyntaxError} (same : action p = .error e p)
    (silent : p.Loud → e.silent = false) (isError : e.problem.isWarning = false) :
    Meets action p post := by
  unfold Meets
  rw [same]
  exact ⟨onward_report p e, fun loud => errors_lt_report (silent loud) isError⟩

theorem unexpected {action : Parse α} {expected : String}
    (same : action p = .error (.unexpected expected p.current) p) : Meets action p post :=
  fail same (fun loud => beq_false_of_ne loud.current) rfl

/-- Failing because of a token that was taken. -/
theorem unexpectedTaken {action : Parse α} {expected : String}
    (same : action p = .error (.unexpected expected p.current) p.advance) :
    Meets action p post := by
  unfold Meets
  rw [same]
  refine ⟨(onward_advance p).trans (onward_report ..), fun loud => ?_⟩
  have found : p.advance.errors <
      (p.advance.report (.unexpected expected p.current)).errors :=
    errors_lt_report (beq_false_of_ne loud.current) rfl
  exact (onward_advance p).errors.trans_lt found

theorem expect {kind : TokenKind} {expected : String} {rest : Token → Parse β}
    (h : p.current.kind = kind → Meets (rest p.current) p.advance after) :
    Meets (expect kind expected >>= rest) p after := by
  by_cases is : p.current.kind = kind
  · refine onward (onward_advance p) ?_ (h is)
    change EStateM.bind (Parse.expect kind expected) rest p = _
    simp only [EStateM.bind, Parse.expect, is, ↓reduceIte]
  · have stops : Parse.expect kind expected p = .error (.unexpected expected p.current) p :=
      if_neg is
    have failing : Meets (Parse.expect kind expected) p fun _ _ => False := unexpected stops
    exact failing.bind fun _ _ _ none => none.elim

theorem failUnterminated {construct : String} {opening : Token} :
    Meets (failUnterminated construct opening : Parse α) p post := by
  unfold Meets Parse.failUnterminated Parser.unterminated
  cases reported : p.reportedEnd with
  | true =>
    refine ⟨⟨List.suffix_refl _, rfl, rfl, le_rfl, fun _ => .inl reported, .inl⟩, fun loud => ?_⟩
    rw [loud.unreported] at reported
    cases reported
  | false =>
    have more :
        p.errors < (p.session.report (.unterminated construct) opening.span).errorCount := by
      rw [errorCount_report]
      exact Nat.lt_succ_self _
    exact ⟨⟨List.suffix_refl _, rfl, rfl, more.le, fun _ => .inr more, .inl⟩, fun _ => more⟩

theorem expectClosing {kind : TokenKind} {expected construct : String} {opening : Token}
    {rest : Token → Parse β}
    (h : p.current.kind = kind → Meets (rest p.current) p.advance after) :
    Meets (expectClosing kind expected construct opening >>= rest) p after := by
  cases atEnd : p.atEnd with
  | true =>
    have failing : Meets (Parse.expectClosing kind expected construct opening) p
        fun _ _ => False :=
      of_eq (if_pos atEnd) failUnterminated
    exact failing.bind fun _ _ _ none => none.elim
  | false =>
    have same : Parse.expectClosing kind expected construct opening p =
        Parse.expect kind expected p := if_neg (by simp [atEnd])
    have direct : Meets (Parse.expect kind expected >>= rest) p after := expect h
    refine of_eq ?_ direct
    change EStateM.bind _ rest p = EStateM.bind _ rest p
    simp only [EStateM.bind, same]

theorem complain {problem : Problem} {span : Span} {rest : Unit → Parse β}
    (isError : problem.isWarning = false)
    (h : ∀ q : Parser, p.errors < q.errors → Meets (rest ()) q after) :
    Meets (complain problem span >>= rest) p after := by
  have more : p.errors < (p.session.report problem span).errorCount := by
    rw [errorCount_report, isError]
    exact Nat.lt_succ_self _
  exact onward (onward_session more.le .inl) rfl (h _ more)

theorem bounded {action : Nat → Parse α} (h : Meets (action (p.remaining + 1)) p post) :
    Meets (bounded action) p post := h

end Meets

end Parse

end MiniLang
