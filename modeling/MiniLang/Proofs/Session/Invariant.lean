import MiniLang.Proofs.Session.Progress

/-!
# What stays true while a program is worked on

All stages treat their session in the same few ways: they report problems at places that they got
from the tokens or put together from such places, they ask it whether to go on, and while tokens are
taken a cancellation may be requested. What is kept by these (`Invariant.Lawful`) stays true as long
as anybody works. Three things of this kind: what was recorded stays at the beginning of the
diagnostics (`lawful_begins`), a cancellation is recorded exactly if it was seen, and then once
(`lawful_tally`), and only places of a certain kind are blamed (`lawful_blames`).
-/

set_option autoImplicit false

namespace MiniLang

/-- What is to stay true: of the places that a program has and that problems are reported at, and of
the session. -/
structure Invariant where
  place : Span → Prop
  session : Session → Prop

/-- A problem that some stage finds in a program. -/
def Problem.InProgram (problem : Problem) : Prop := problem ≠ .cancelled

theorem Problem.InProgram.of_lexical {problem : Problem} (h : problem.category = .lexical) :
    problem.InProgram := by
  rintro rfl
  cases h

namespace Invariant

/-- Whatever a stage does keeps what is to stay true. -/
structure Lawful (I : Invariant) : Prop where
  origin : I.place .origin
  join {a b : Span} (h : I.place a) (h' : I.place b) : I.place (a.join b)
  report {s : Session} (h : I.session s) {problem : Problem} (found : problem.InProgram)
    {span : Span} (here : I.place span) : I.session (s.report problem span)
  checkpoint {s : Session} (h : I.session s) {span : Span} (here : I.place span) :
    I.session (s.checkpoint span).2
  cancel {s : Session} (h : I.session s) : I.session s.cancel

/-- A diagnostic about the program, at a place of the program. -/
def Finding (I : Invariant) (d : Diagnostic) : Prop :=
  ∃ problem span, d = .of problem span ∧ problem.InProgram ∧ I.place span

/-- All of the given places are of the right kind. -/
def All (I : Invariant) (spans : List Span) : Prop := ∀ span ∈ spans, I.place span

namespace All

variable {I : Invariant} {spans spans' : List Span}

theorem nil : I.All [] := List.forall_mem_nil _

theorem cons {span : Span} (h : I.place span) (h' : I.All spans) : I.All (span :: spans) :=
  List.forall_mem_cons.2 ⟨h, h'⟩

theorem append (h : I.All spans) (h' : I.All spans') : I.All (spans ++ spans') :=
  List.forall_mem_append.2 ⟨h, h'⟩

theorem left (h : I.All (spans ++ spans')) : I.All spans := (List.forall_mem_append.1 h).1

theorem right (h : I.All (spans ++ spans')) : I.All spans' := (List.forall_mem_append.1 h).2

theorem head {span : Span} (h : I.All (span :: spans)) : I.place span := h span List.mem_cons_self

theorem tail {span : Span} (h : I.All (span :: spans)) : I.All spans :=
  (List.forall_mem_cons.1 h).2

end All

/-- Diagnostics about the program, at places of the program. -/
def Findings (I : Invariant) (ds : List Diagnostic) : Prop := ∀ d ∈ ds, I.Finding d

variable {I : Invariant} {s : Session} {ds : List Diagnostic}

theorem Findings.nil : I.Findings [] := List.forall_mem_nil _

theorem Findings.append {ds' : List Diagnostic} (h : I.Findings ds) (h' : I.Findings ds') :
    I.Findings (ds ++ ds') := List.forall_mem_append.2 ⟨h, h'⟩

theorem Lawful.recordAll (law : I.Lawful) (h : I.session s) (findings : I.Findings ds) :
    I.session (s.recordAll ds) := by
  induction ds generalizing s with
  | nil => rwa [Session.recordAll_nil]
  | cons d ds ih =>
    obtain ⟨first, rest⟩ := List.forall_mem_cons.1 findings
    obtain ⟨problem, span, rfl, found, here⟩ := first
    have recorded : s.recordAll (.of problem span :: ds) =
        (s.report problem span).recordAll ds := by
      simp [Session.report, Session.record, Session.recordAll]
    rw [recorded]
    exact ih (law.report h found here) rest

/-! ### What was recorded stays -/

/-- The diagnostics begin with the given ones. -/
def begins (ds : List Diagnostic) : Invariant where
  place _ := True
  session s := ds <+: s.diagnostics

theorem lawful_begins (ds : List Diagnostic) : (begins ds).Lawful where
  origin := trivial
  join _ _ := trivial
  report h _ _ _ _ := h.trans (List.prefix_append ..)
  checkpoint {s} h span _ := by
    change ds <+: (s.checkpoint span).2.diagnostics
    unfold Session.checkpoint
    split
    · exact h
    · split
      · exact h
      · exact h
      · exact h.trans (List.prefix_append ..)
  cancel h := h

/-! ### A cancellation is recorded once -/

end Invariant

namespace Session

/-- How many cancellations were recorded. -/
def cancellations (s : Session) : Nat := s.diagnostics.countP (·.problem == .cancelled)

/-- A cancellation was recorded exactly if it was seen, and then once. -/
def Tally (s : Session) : Prop := s.cancellations = if s.cancelled then 1 else 0

theorem cancellations_report (s : Session) (problem : Problem) (span : Span) :
    (s.report problem span).cancellations =
      s.cancellations + if problem == .cancelled then 1 else 0 := by
  have last : (s.report problem span).diagnostics = s.diagnostics ++ [.of problem span] := rfl
  rw [cancellations, last, List.countP_append, List.countP_singleton]
  rfl

end Session

namespace Invariant

/-- The record of cancellations agrees with what was seen. -/
def tally : Invariant where
  place _ := True
  session := Session.Tally

theorem lawful_tally : tally.Lawful where
  origin := trivial
  join _ _ := trivial
  report {s} h problem found span _ := by
    have other : (problem == .cancelled) = false := beq_false_of_ne found
    change (s.report problem span).cancellations = if s.cancelled then 1 else 0
    rw [Session.cancellations_report, other]
    exact h
  checkpoint {s} h span _ := by
    change (s.checkpoint span).2.Tally
    unfold Session.checkpoint
    split
    next => exact h
    next unseen =>
      split
      · exact h
      · exact h
      · change (s.report .cancelled span).cancellations = 1
        rw [Session.cancellations_report, h, if_neg unseen]
        rfl
  cancel h := h

/-! ### A cancellation that was seen -/

/-- The cancellation was seen. -/
def stopped : Invariant where
  place _ := True
  session s := s.cancelled = true

theorem lawful_stopped : stopped.Lawful where
  origin := trivial
  join _ _ := trivial
  report h _ _ _ _ := h
  checkpoint {s} h span _ := by
    rw [Session.checkpoint_of_cancelled h]
    exact h
  cancel h := h

/-! ### Where problems are -/

/-- All diagnostics are about places of a certain kind. -/
def blames (place : Span → Prop) : Invariant where
  place := place
  session s := ∀ d ∈ s.diagnostics, place d.span

theorem lawful_blames {place : Span → Prop} (origin : place .origin)
    (join : ∀ a b, place a → place b → place (a.join b)) : (blames place).Lawful where
  origin := origin
  join := join _ _
  report h _ _ _ here := List.forall_mem_append.2 ⟨h, List.forall_mem_singleton.2 here⟩
  checkpoint {s} h span here := by
    change ∀ d ∈ (s.checkpoint span).2.diagnostics, place d.span
    unfold Session.checkpoint
    split
    · exact h
    · split
      · exact h
      · exact h
      · exact List.forall_mem_append.2 ⟨h, List.forall_mem_singleton.2 here⟩
  cancel h := h

end Invariant

end MiniLang
