import MiniLang.Proofs.Syntax.Trees
import MiniLang.Proofs.Token.Deliveries
import MiniLang.Syntax.Parser.Statement

/-!
# Reasoning about parsers

What every action of a parser keeps, whether it gives a value or fails (`Parser.Moves`), and what an
action says about its value (`Parse.Yields`). An action that fails has found an error, which its
session shows once the syntax error is reported. Each way to put actions together has its rule.
-/

set_option autoImplicit false

namespace MiniLang

namespace Parser

/-- The tokens of a parser are fit. Where it looks at an unknown one, or has found the end of the
input inside something open, an error was recorded. -/
structure Fit (p : Parser) : Prop where
  current : p.current.Fit
  upcoming : ∀ d ∈ p.upcoming, d.Fit
  previous : p.previousSpan.Valid
  unknown : p.current.kind = .unknown → p.session.hasErrors = true
  reportedEnd : p.reportedEnd = true → p.session.hasErrors = true

/-- A parser has moved on: it has taken tokens and drawn numbers, taken no error back, and is inside
of as many blocks as before. -/
structure Moves (p q : Parser) : Prop where
  fit : q.Fit
  leads : p.session.Leads q.session
  nextId : p.nextId ≤ q.nextId
  remaining : q.remaining ≤ p.remaining
  blockDepth : q.blockDepth = p.blockDepth

variable {p q r : Parser}

theorem Moves.refl (fit : p.Fit) : Moves p p :=
  ⟨fit, .refl _, Nat.le_refl _, Nat.le_refl _, rfl⟩

theorem Moves.trans (h : Moves p q) (h' : Moves q r) : Moves p r :=
  ⟨h'.fit, h.leads.trans h'.leads, h.nextId.trans h'.nextId, h'.remaining.trans h.remaining,
    h'.blockDepth.trans h.blockDepth⟩

/-- The parser at the beginning of fit deliveries. -/
theorem fit_start {tokens : List Delivery} (h : ∀ d ∈ tokens, d.Fit) (s : Session) :
    (start tokens s).Fit := by
  have origin : Span.origin.Valid := by decide
  cases tokens with
  | nil =>
    exact ⟨Token.fit_endAt origin, (fun _ mem => by cases mem), origin, (fun same => by cases same),
      fun same => by cases same⟩
  | cons d rest =>
    have first := h d List.mem_cons_self
    exact ⟨first.token, fun d mem => h d (List.mem_cons_of_mem _ mem), origin,
      fun unknown => first.errors unknown s, fun same => by cases same⟩

@[simp] theorem nextId_advance (p : Parser) : p.advance.nextId = p.nextId := by
  unfold advance
  split
  · rfl
  · split <;> rfl

/-- Taking a token. -/
theorem Fit.advance (h : p.Fit) : Moves p p.advance := by
  refine ⟨?_, ?_, (nextId_advance p).ge, remaining_advance_le p, ?_⟩
  · unfold Parser.advance
    split
    · exact h
    · split
      next nothing =>
        have valid : p.current.span.endOf.Valid := ⟨h.current.valid.1, h.current.valid.2.1, le_rfl⟩
        exact ⟨Token.fit_endAt valid, h.upcoming, h.current.valid, (fun same => by cases same),
          h.reportedEnd⟩
      next d rest more =>
        have first := h.upcoming d (more ▸ List.mem_cons_self)
        exact ⟨first.token, fun d mem => h.upcoming d (more ▸ List.mem_cons_of_mem _ mem),
          h.current.valid, fun unknown => first.errors unknown p.session,
          fun reported => (d.leads_notify p.session).errors (h.reportedEnd reported)⟩
  · unfold Parser.advance
    split
    · exact .refl _
    · split
      · exact .refl _
      next d rest _ => exact d.leads_notify p.session
  · unfold Parser.advance
    split
    · rfl
    · split <;> rfl

/-- Another session that was led to. -/
theorem Fit.session {s : Session} (h : p.Fit) (leads : p.session.Leads s) :
    Moves p { p with session := s } :=
  ⟨⟨h.current, h.upcoming, h.previous, fun unknown => leads.errors (h.unknown unknown),
    fun reported => leads.errors (h.reportedEnd reported)⟩, leads, le_rfl, le_rfl, rfl⟩

/-- Reporting a syntax error that is either new or has been reported before. -/
theorem Fit.report {e : SyntaxError} (h : p.Fit)
    (silent : e.silent = true → p.session.hasErrors = true)
    (isError : e.problem.isWarning = false) :
    Moves p (p.report e) ∧ (p.report e).session.hasErrors = true := by
  unfold Parser.report
  split
  next said => exact ⟨.refl h, silent said⟩
  next =>
    refine ⟨h.session (.report ..), ?_⟩
    rw [Session.hasErrors_report, isError]
    exact Bool.or_true _

end Parser

namespace Parse

variable {α β : Type} {p q : Parser}

/-- An action of a parser that is fit gives a value of which `post` holds, together with the parser
afterwards, or it fails and has found an error. -/
def Yields (action : Parse α) (p : Parser) (post : α → Parser → Prop) : Prop :=
  p.Fit →
    match action p with
    | .ok a q => Parser.Moves p q ∧ post a q
    | .error e q => Parser.Moves p (q.report e) ∧ (q.report e).session.hasErrors = true

namespace Yields

variable {post post' : α → Parser → Prop}

/-- Only what an action does at the given parser matters. -/
theorem of_eq {action action' : Parse α} (same : action p = action' p)
    (h : Yields action' p post) : Yields action p post := by
  intro fit
  rw [same]
  exact h fit

/-- The rule of sequencing. -/
theorem bind {action : Parse α} {rest : α → Parse β} {after : β → Parser → Prop}
    (h : Yields action p post)
    (h' : ∀ a q, Parser.Moves p q → post a q → Yields (rest a) q after) :
    Yields (action >>= rest) p after := by
  intro fit
  have first := h fit
  change match EStateM.bind action rest p with
    | .ok b r => _
    | .error e r => _
  unfold EStateM.bind
  cases result : action p with
  | ok a q =>
    rw [result] at first
    have second := h' a q first.1 first.2 first.1.fit
    cases result' : rest a q with
    | ok b r =>
      rw [result'] at second
      simp only [result']
      exact ⟨first.1.trans second.1, second.2⟩
    | error e r =>
      rw [result'] at second
      simp only [result']
      exact ⟨first.1.trans second.1, second.2⟩
  | error e q =>
    rw [result] at first
    exact first

theorem imp {action : Parse α} (h : Yields action p post)
    (le : ∀ a q, Parser.Moves p q → post a q → post' a q) : Yields action p post' := by
  intro fit
  have first := h fit
  cases result : action p with
  | ok a q =>
    rw [result] at first
    exact ⟨first.1, le a q first.1 first.2⟩
  | error e q =>
    rw [result] at first
    exact first

theorem pure {a : α} (h : p.Fit → post a p) : Yields (pure a) p post :=
  fun fit => ⟨.refl fit, h fit⟩

/-- The rule of applying a function to the value. -/
theorem map {action : Parse α} {f : α → β} {after : β → Parser → Prop}
    (h : Yields action p fun a q => after (f a) q) : Yields (f <$> action) p after := by
  change Yields (action >>= fun a => Pure.pure (f a)) p after
  exact bind h fun _ _ _ ready => .pure fun _ => ready

/-- The kind of the current token is known. -/
theorem kind {rest : TokenKind → Parse β} {after : β → Parser → Prop}
    (h : Yields (rest p.current.kind) p after) : Yields (currentKind >>= rest) p after := h

/-- Where the token taken last stands is known. -/
theorem lastSpan {rest : Span → Parse β} {after : β → Parser → Prop}
    (h : Yields (rest p.previousSpan) p after) : Yields (previousSpan >>= rest) p after := h

/-- How many blocks are open is known. -/
theorem depth {rest : Nat → Parse β} {after : β → Parser → Prop}
    (h : Yields (rest p.blockDepth) p after) : Yields (blockDepth >>= rest) p after := h

/-- The rule of failing. -/
theorem fail {e : SyntaxError} (silent : e.silent = true → p.session.hasErrors = true)
    (isError : e.problem.isWarning = false) : Yields (throw e : Parse α) p post :=
  fun fit => fit.report silent isError

/-- Failing at a token. -/
theorem unexpected {expected : String} {found : Token}
    (unknown : found.kind = .unknown → p.session.hasErrors = true) :
    Yields (throw (.unexpected expected found) : Parse α) p post :=
  fail (fun silent => unknown (beq_iff_eq.1 silent)) rfl

/-- Failing at the current token. -/
theorem unexpectedHere {action : Parse α} {expected : String}
    (same : action p = .error (.unexpected expected p.current) p) : Yields action p post := by
  intro fit
  rw [same]
  exact fit.report (fun silent => fit.unknown (beq_iff_eq.1 silent)) rfl

/-- The rule of a choice by a test. -/
theorem ite {c : Prop} [Decidable c] {yes no : Parse α} (h : c → Yields yes p post)
    (h' : ¬c → Yields no p post) : Yields (if c then yes else no) p post := by
  by_cases test : c
  · rw [if_pos test]
    exact h test
  · rw [if_neg test]
    exact h' test

end Yields

/-- What is known about a token that was taken. -/
structure Taken (p : Parser) (t : Token) (q : Parser) : Prop where
  current : t = p.current
  fit : t.Fit
  unknown : t.kind = .unknown → q.session.hasErrors = true
  nextId : q.nextId = p.nextId
  less : p.atEnd = false → q.remaining < p.remaining

theorem taken_advance (fit : p.Fit) : Taken p p.current p.advance :=
  ⟨rfl, fit.current, fun unknown => fit.advance.leads.errors (fit.unknown unknown),
    p.nextId_advance, Parser.remaining_advance_lt⟩

theorem yields_advance (p : Parser) : Yields advance p (Taken p) :=
  fun fit => ⟨fit.advance, taken_advance fit⟩

theorem yields_freshId (p : Parser) :
    Yields freshId p fun id q => id = p.nextId ∧ q.nextId = p.nextId + 1 ∧
      q.session = p.session := by
  intro fit
  have moves : Parser.Moves p { p with nextId := p.nextId + 1 } :=
    ⟨⟨fit.current, fit.upcoming, fit.previous, fit.unknown, fit.reportedEnd⟩, .refl _,
      Nat.le_succ _, le_rfl, rfl⟩
  exact ⟨moves, rfl, rfl, rfl⟩

theorem yields_expect (kind : TokenKind) (expected : String) (p : Parser) :
    Yields (expect kind expected) p fun t q => Taken p t q ∧ t.kind = kind := by
  by_cases is : p.current.kind = kind
  · have same : expect kind expected p = advance p := if_pos is
    refine (yields_advance p).imp (fun t q _ taken => ⟨taken, ?_⟩) |>.of_eq same
    rw [taken.current, is]
  · have same : expect kind expected p = .error (.unexpected expected p.current) p := if_neg is
    exact .unexpectedHere same

/-- Failing at the end of the input: only the first such error is not silent, and before the others
there is that one. -/
theorem yields_failUnterminated {post : α → Parser → Prop} (construct : String) (opening : Token)
    (p : Parser) : Yields (failUnterminated construct opening : Parse α) p post := by
  intro fit
  unfold failUnterminated Parser.unterminated
  cases reported : p.reportedEnd with
  | true =>
    have errors := fit.reportedEnd reported
    refine ⟨⟨⟨fit.current, fit.upcoming, fit.previous, fit.unknown, fun _ => errors⟩, .refl _,
      le_rfl, le_rfl, rfl⟩, errors⟩
  | false =>
    have leads : p.session.Leads (p.session.report (.unterminated construct) opening.span) :=
      .report ..
    have errors : (p.session.report (.unterminated construct) opening.span).hasErrors = true := by
      rw [Session.hasErrors_report]
      exact Bool.or_true _
    exact ⟨⟨⟨fit.current, fit.upcoming, fit.previous, fun _ => errors, fun _ => errors⟩, leads,
      le_rfl, le_rfl, rfl⟩, errors⟩

theorem yields_expectClosing (kind : TokenKind) (expected construct : String) (opening : Token)
    (p : Parser) :
    Yields (expectClosing kind expected construct opening) p fun t q =>
      Taken p t q ∧ t.kind = kind := by
  cases atEnd : p.atEnd with
  | true =>
    have same : expectClosing kind expected construct opening p =
        failUnterminated construct opening p := if_pos atEnd
    exact (yields_failUnterminated construct opening p).of_eq same
  | false =>
    have same : expectClosing kind expected construct opening p = expect kind expected p :=
      if_neg (by simp [atEnd])
    exact (yields_expect kind expected p).of_eq same

/-- Recording an error that spoils no statement. -/
theorem yields_complain {problem : Problem} (isError : problem.isWarning = false) (span : Span)
    (p : Parser) : Yields (complain problem span) p fun _ q => q.session.hasErrors = true := by
  intro fit
  have recorded : (p.session.report problem span).hasErrors = true := by
    rw [Session.hasErrors_report, isError]
    exact Bool.or_true _
  exact ⟨fit.session (.report ..), recorded⟩

/-- The rule of loops whose rounds are bounded by the tokens that are left. -/
theorem yields_bounded {action : Nat → Parse α} {post : α → Parser → Prop}
    (h : Yields (action (p.remaining + 1)) p post) : Yields (bounded action) p post := h

end Parse

end MiniLang
