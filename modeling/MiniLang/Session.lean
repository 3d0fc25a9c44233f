import MiniLang.Diagnostic.Basic

/-!
# Sessions

A session follows the compilation of one source text: it collects the diagnostics and knows about
cancellation. Work asks at checkpoints whether to go on. A requested cancellation is seen at a
checkpoint, which records it once; from then on no checkpoint passes and none records it again
(`checkpoint_of_cancelled`).
-/

set_option autoImplicit false

namespace MiniLang

/-- The state of one compilation: what was found so far, and whether the work has to stop. -/
structure Session where
  /-- The diagnostics in the order in which they were found. -/
  diagnostics : List Diagnostic := []
  /-- After how many more passed checkpoints a cancellation is seen, if one is to come. -/
  cancelAfter : Option Nat := none
  /-- Whether a checkpoint has seen the cancellation. -/
  cancelled : Bool := false
  deriving DecidableEq, Repr

namespace Session

/-- A session without diagnostics that nobody cancels. -/
def fresh : Session := {}

/-- A session that sees a cancellation after `passes` passed checkpoints. -/
def cancelledAfter (passes : Nat) : Session := { cancelAfter := some passes }

/-- Records a diagnostic. -/
def record (s : Session) (d : Diagnostic) : Session :=
  { s with diagnostics := s.diagnostics ++ [d] }

/-- Records diagnostics in order. -/
def recordAll (s : Session) (ds : List Diagnostic) : Session :=
  { s with diagnostics := s.diagnostics ++ ds }

/-- Records a problem at a place. -/
def report (s : Session) (problem : Problem) (span : Span) : Session :=
  s.record (.of problem span)

/-- Requests a cancellation, which the next checkpoint sees. -/
def cancel (s : Session) : Session := { s with cancelAfter := some 0 }

/-- Asks at `span` whether to go on. The first checkpoint that sees a cancellation records it. -/
def checkpoint (s : Session) (span : Span) : Bool × Session :=
  if s.cancelled then
    (false, s)
  else
    match s.cancelAfter with
    | none => (true, s)
    | some (passes + 1) => (true, { s with cancelAfter := some passes })
    | some 0 => (false, { s.report .cancelled span with cancelled := true })

/-- Whether an error was recorded. -/
def hasErrors (s : Session) : Bool := Diagnostics.hasErrors s.diagnostics

/-- How many errors were recorded. -/
def errorCount (s : Session) : Nat := Diagnostics.errorCount s.diagnostics

/-- Once a cancellation was seen, checkpoints stop the work and change nothing. -/
theorem checkpoint_of_cancelled {s : Session} (h : s.cancelled = true) (span : Span) :
    s.checkpoint span = (false, s) := by
  simp [checkpoint, h]

/-- Without a cancellation checkpoints pass and change nothing. -/
theorem checkpoint_of_cancelAfter_eq_none {s : Session} (h : s.cancelAfter = none)
    (h' : s.cancelled = false) (span : Span) : s.checkpoint span = (true, s) := by
  simp [checkpoint, h, h']

/-- A checkpoint that passes leaves the diagnostics alone; one that does not leaves the session
cancelled. -/
theorem checkpoint_fst (s : Session) (span : Span) :
    if (s.checkpoint span).1 then (s.checkpoint span).2.diagnostics = s.diagnostics
    else (s.checkpoint span).2.cancelled = true := by
  unfold checkpoint
  split
  next h => simpa using h
  next => split <;> simp

@[simp] theorem diagnostics_record (s : Session) (d : Diagnostic) :
    (s.record d).diagnostics = s.diagnostics ++ [d] := rfl

@[simp] theorem diagnostics_recordAll (s : Session) (ds : List Diagnostic) :
    (s.recordAll ds).diagnostics = s.diagnostics ++ ds := rfl

end Session

end MiniLang
