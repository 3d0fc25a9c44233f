import MiniLang.Proofs.Syntax.Moved
import MiniLang.Proofs.Syntax.Parser.Likeness.Programs

/-!
# The layout of what is parsed

A parser looks at the kinds and the texts of its tokens and passes their places on without looking
at them (`Comparison.layout`). So from the same words, wherever they stand, it reads the same
program up to places, finds the same problems in the same order and asks its session at the same
checkpoints (`parse_sameWords`).
-/

set_option autoImplicit false

namespace MiniLang

/-- All places are one. -/
def Span.gather (_ : Span) : Span := .origin

/-- Sessions that hold the same, places apart. -/
def Session.SameFindings (s s' : Session) : Prop := s.moved .gather = s'.moved .gather

/-- Tokens of one kind with one text. -/
structure Token.SameWord (t t' : Token) : Prop where
  kind : t.kind = t'.kind
  text : t.text = t'.text

/-- Deliveries of the same word with the same problem that cancel alike. -/
structure Delivery.SameWord (d d' : Delivery) : Prop where
  token : d.token.SameWord d'.token
  problem : d.problem = d'.problem
  cancels : d.cancels = d'.cancels

/-- Parsers that read the same words. -/
structure Parser.SameWords (p q : Parser) : Prop where
  upcoming : List.Forall₂ Delivery.SameWord p.upcoming q.upcoming
  current : p.current.SameWord q.current
  consumed : p.consumed = q.consumed
  session : p.session.SameFindings q.session
  nextId : p.nextId = q.nextId
  blockDepth : p.blockDepth = q.blockDepth
  reportedEnd : p.reportedEnd = q.reportedEnd

namespace Token.SameWord

variable {t t' : Token}

theorem shown (h : t.SameWord t') : t.shown = t'.shown := by
  rw [Token.shown, Token.shown, h.kind, h.text]

theorem endAt (span span' : Span) : (Token.endAt span).SameWord (Token.endAt span') := ⟨rfl, rfl⟩

end Token.SameWord

namespace Session.SameFindings

variable {s s' : Session}

theorem report (h : s.SameFindings s') (problem : Problem) (span span' : Span) :
    (s.report problem span).SameFindings (s'.report problem span') := by
  unfold SameFindings
  rw [report_moved, report_moved, h]
  rfl

theorem notify (h : s.SameFindings s') {d d' : Delivery} (same : d.SameWord d') :
    (d.notify s).SameFindings (d'.notify s') := by
  have cancel : (if d.cancels then s.cancel else s).SameFindings
      (if d'.cancels then s'.cancel else s') := by
    rw [same.cancels]
    split
    · exact congrArg Session.cancel h
    · exact h
  have brought : d.diagnostics.map (Diagnostic.moved .gather) =
      d'.diagnostics.map (Diagnostic.moved .gather) := by
    rw [Delivery.diagnostics, Delivery.diagnostics, same.problem, List.map_map, List.map_map]
    rfl
  unfold SameFindings Delivery.notify
  rw [recordAll_moved, recordAll_moved, cancel, brought]

/-- A checkpoint sees a cancellation in both or in neither. -/
theorem checkpoint (h : s.SameFindings s') (span span' : Span) :
    (s.checkpoint span).1 = (s'.checkpoint span').1 ∧
      (s.checkpoint span).2.SameFindings (s'.checkpoint span').2 := by
  have here := checkpoint_moved .gather s span
  have there := checkpoint_moved .gather s' span'
  rw [h] at here
  exact Prod.mk.inj (here.symm.trans there)

theorem hasErrors (h : s.SameFindings s') : s.hasErrors = s'.hasErrors := by
  rw [← hasErrors_moved .gather s, h, hasErrors_moved]

theorem errorCount (h : s.SameFindings s') : s.errorCount = s'.errorCount := by
  rw [← errorCount_moved .gather s, h, errorCount_moved]

theorem cancelled (h : s.SameFindings s') : s.cancelled = s'.cancelled := by
  have same : (s.moved .gather).cancelled = (s'.moved .gather).cancelled :=
    congrArg Session.cancelled h
  exact same

end Session.SameFindings

namespace Parser.SameWords

variable {p q : Parser}

theorem atEnd (h : p.SameWords q) : p.atEnd = q.atEnd := by
  rw [Parser.atEnd, Parser.atEnd, h.current.kind]

theorem remaining (h : p.SameWords q) : p.remaining = q.remaining := by
  rw [Parser.remaining, Parser.remaining, h.atEnd, h.upcoming.length_eq]

theorem advance (h : p.SameWords q) : p.advance.SameWords q.advance := by
  have moved : p.consumed + 1 = q.consumed + 1 := congrArg (· + 1) h.consumed
  unfold Parser.advance
  rw [h.atEnd]
  split
  · exact h
  · have upcoming := h.upcoming
    cases here : p.upcoming with
    | nil =>
      rw [here, List.forall₂_nil_left_iff] at upcoming
      rw [upcoming]
      exact ⟨.nil, .endAt _ _, moved, h.session, h.nextId, h.blockDepth, h.reportedEnd⟩
    | cons d rest =>
      rw [here] at upcoming
      cases there : q.upcoming with
      | nil =>
        rw [there] at upcoming
        cases upcoming
      | cons d' rest' =>
        rw [there] at upcoming
        obtain ⟨first, others⟩ := List.forall₂_cons.1 upcoming
        exact ⟨others, first.token, moved, h.session.notify first, h.nextId, h.blockDepth,
          h.reportedEnd⟩

theorem start {tokens tokens' : List Delivery}
    (same : List.Forall₂ Delivery.SameWord tokens tokens') (s : Session) :
    (start tokens s).SameWords (start tokens' s) := by
  have session : s.SameFindings s := rfl
  cases same with
  | nil => exact ⟨.nil, .endAt _ _, rfl, session, rfl, rfl, rfl⟩
  | cons first rest => exact ⟨rest, first.token, rfl, session.notify first, rfl, rfl, rfl⟩

end Parser.SameWords

namespace Comparison

/-- How parsers of the same words are compared. -/
def layout : Comparison where
  toView := .moved .gather
  token := Token.SameWord
  problem := Eq
  state := Parser.SameWords

end Comparison

end MiniLang
