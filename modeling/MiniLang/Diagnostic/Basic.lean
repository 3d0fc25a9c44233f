import MiniLang.Diagnostic.Problem
import MiniLang.Text.Span

/-!
# Diagnostics

A diagnostic is a problem at a place in the source text, with a severity. Diagnostics are kept in
the order in which they were found; the counts of errors and of warnings add up to their number
(`errorCount_add_warningCount`), and sorting them by position only permutes them
(`sortedByPosition_perm`).
-/

set_option autoImplicit false

namespace MiniLang

/-- An error keeps a program from being compiled, a warning does not. -/
inductive Severity where
  | error
  | warning
  deriving DecidableEq, Repr

namespace Severity

/-- The word for a severity. -/
def text : Severity → String
  | error => "error"
  | warning => "warning"

end Severity

/-- A problem at a place in a source text. -/
structure Diagnostic where
  severity : Severity
  problem : Problem
  span : Span
  deriving DecidableEq, Repr

namespace Diagnostic

/-- The diagnostic of a problem, with the severity that the problem has by itself. -/
def of (problem : Problem) (span : Span) : Diagnostic :=
  ⟨if problem.isWarning then .warning else .error, problem, span⟩

/-- Whether a diagnostic keeps its program from being compiled. -/
def isError (d : Diagnostic) : Bool := d.severity == .error

/-- A diagnostic as one line: position, severity and message. -/
def text (d : Diagnostic) : String :=
  d.span.text ++ ": " ++ d.severity.text ++ ": " ++ d.problem.message

/-- A diagnostic as one line, behind the name of the file that it is about. -/
def textIn (file : String) (d : Diagnostic) : String := file ++ ":" ++ d.text

/-- A problem is an error exactly when it is no warning. -/
theorem isError_of (problem : Problem) (span : Span) :
    (of problem span).isError = !problem.isWarning := by
  unfold of isError
  cases problem.isWarning <;> rfl

end Diagnostic

namespace Diagnostics

/-- How many of the diagnostics are errors. -/
def errorCount (ds : List Diagnostic) : Nat := ds.countP Diagnostic.isError

/-- How many of the diagnostics are warnings. -/
def warningCount (ds : List Diagnostic) : Nat := ds.countP (!·.isError)

/-- Whether an error is among the diagnostics. -/
def hasErrors (ds : List Diagnostic) : Bool := ds.any Diagnostic.isError

/-- The diagnostics by ascending start of their spans; those of one start keep their order. -/
def sortedByPosition (ds : List Diagnostic) : List Diagnostic :=
  ds.mergeSort fun a b => a.span.start ≤ b.span.start

/-- Every diagnostic is either an error or a warning. -/
theorem errorCount_add_warningCount (ds : List Diagnostic) :
    errorCount ds + warningCount ds = ds.length := by
  induction ds with
  | nil => rfl
  | cons d ds ih =>
    simp only [errorCount, warningCount, List.countP_cons, List.length_cons] at ih ⊢
    cases d.isError <;> simp <;> omega

/-- There are errors exactly when their number is not zero. -/
theorem hasErrors_iff (ds : List Diagnostic) : hasErrors ds ↔ 0 < errorCount ds := by
  simp [hasErrors, errorCount, List.countP_pos_iff]

/-- Sorting loses no diagnostic and invents none. -/
theorem sortedByPosition_perm (ds : List Diagnostic) : (sortedByPosition ds).Perm ds :=
  List.mergeSort_perm ..

end Diagnostics

end MiniLang
