import Mathlib.Tactic
import MiniLang.Session

/-!
# How sessions go on

No stage of a compilation takes back an error, and a cancellation that was seen is recorded as one
(`Session.Leads`). So a stage that finds no error in its session at the end had none on the way, and
passed all of its checkpoints (`Session.Leads.checkpoint`).
-/

set_option autoImplicit false

namespace MiniLang

namespace Diagnostics

theorem hasErrors_append (ds es : List Diagnostic) :
    hasErrors (ds ++ es) = (hasErrors ds || hasErrors es) := List.any_append

theorem hasErrors_of (problem : Problem) (span : Span) :
    hasErrors [.of problem span] = !problem.isWarning := by
  simp [hasErrors, Diagnostic.isError_of]

end Diagnostics

namespace Session

/-- If a cancellation was seen, an error was recorded. -/
def Sound (s : Session) : Prop := s.cancelled = true → s.hasErrors = true

/-- No cancellation was seen, and none is to come. -/
structure Uncancelled (s : Session) : Prop where
  unasked : s.cancelAfter = none
  unseen : s.cancelled = false

/-- What was recorded stays, and a cancellation that was seen meanwhile was recorded as an error. -/
structure Leads (s s' : Session) : Prop where
  errors : s.hasErrors = true → s'.hasErrors = true
  sound : s.Sound → s'.Sound

@[simp] theorem recordAll_nil (s : Session) : s.recordAll [] = s := by simp [recordAll]

@[simp] theorem hasErrors_recordAll (s : Session) (ds : List Diagnostic) :
    (s.recordAll ds).hasErrors = (s.hasErrors || Diagnostics.hasErrors ds) :=
  Diagnostics.hasErrors_append s.diagnostics ds

@[simp] theorem hasErrors_report (s : Session) (problem : Problem) (span : Span) :
    (s.report problem span).hasErrors = (s.hasErrors || !problem.isWarning) := by
  rw [← Diagnostics.hasErrors_of problem span]
  exact hasErrors_recordAll s [.of problem span]

namespace Leads

variable {s s' s'' : Session}

theorem refl (s : Session) : s.Leads s := ⟨id, id⟩

theorem trans (h : s.Leads s') (h' : s'.Leads s'') : s.Leads s'' :=
  ⟨h'.errors ∘ h.errors, h'.sound ∘ h.sound⟩

/-- Without errors at the end there were none before. -/
theorem clean (h : s.Leads s') (clean : s'.hasErrors = false) : s.hasErrors = false := by
  cases before : s.hasErrors with
  | false => rfl
  | true => rw [← clean, h.errors before]

theorem recordAll (s : Session) (ds : List Diagnostic) : s.Leads (s.recordAll ds) := by
  have errors : s.hasErrors = true → (s.recordAll ds).hasErrors = true := by
    intro h
    rw [hasErrors_recordAll, h, Bool.true_or]
  exact ⟨errors, fun sound seen => errors (sound seen)⟩

theorem report (s : Session) (problem : Problem) (span : Span) :
    s.Leads (s.report problem span) := recordAll s [.of problem span]

theorem cancel (s : Session) : s.Leads s.cancel := ⟨id, id⟩

/-- A checkpoint that does not pass leaves an error behind. -/
theorem checkpoint (s : Session) (span : Span) :
    s.Leads (s.checkpoint span).2 ∧
      (s.Sound → (s.checkpoint span).2.hasErrors = false → (s.checkpoint span).1 = true) := by
  unfold Session.checkpoint
  split
  next seen =>
    refine ⟨refl s, fun sound clean => ?_⟩
    rw [sound seen] at clean
    cases clean
  next unseen =>
    split
    · exact ⟨refl s, fun _ _ => rfl⟩
    · exact ⟨⟨id, id⟩, fun _ _ => rfl⟩
    · have recorded : (s.report .cancelled span).hasErrors = true := by
        rw [hasErrors_report]
        exact Bool.or_true _
      refine ⟨⟨fun _ => recorded, fun _ _ => recorded⟩, fun _ clean => ?_⟩
      change (s.report .cancelled span).hasErrors = false at clean
      rw [recorded] at clean
      cases clean

end Leads

/-- Without a cancellation checkpoints pass. -/
theorem Uncancelled.checkpoint {s : Session} (h : s.Uncancelled) (span : Span) :
    s.checkpoint span = (true, s) :=
  checkpoint_of_cancelAfter_eq_none h.unasked h.unseen span

theorem Uncancelled.recordAll {s : Session} (h : s.Uncancelled) (ds : List Diagnostic) :
    (s.recordAll ds).Uncancelled := ⟨h.unasked, h.unseen⟩

theorem Uncancelled.report {s : Session} (h : s.Uncancelled) (problem : Problem) (span : Span) :
    (s.report problem span).Uncancelled := h.recordAll [.of problem span]

/-- A session that nobody cancelled before has no errors because of a cancellation. -/
theorem sound_of_not_cancelled {s : Session} (h : s.cancelled = false) : s.Sound := by
  intro seen
  rw [h] at seen
  cases seen

end Session

end MiniLang
