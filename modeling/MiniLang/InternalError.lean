import MiniLang.Text.Span

/-!
# Internal errors

Code can only be generated from programs without errors. What is wrong with a program that should
never have got there is an internal error: a defect of the compiler and not of the source text.
-/

set_option autoImplicit false

namespace MiniLang

/-- A defect of the compiler. -/
inductive InternalError where
  /-- An error placeholder stands in the program. -/
  | errorNode (span : Span)
  /-- A name refers to nothing. -/
  | unresolvedName (name : String) (span : Span)
  /-- An expression has an error as its type. -/
  | errorType (span : Span)
  | invalidSpan (span : Span)
  /-- The work on a unit broke off. -/
  | workerPanicked (unit : String)
  deriving DecidableEq, Repr

namespace InternalError

/-- A span with all its fields. -/
def spanFields (s : Span) : String :=
  "Span \x7b start: " ++ toString s.start ++ ", end: " ++ toString s.stop ++ ", line: " ++
    toString s.line ++ ", column: " ++ toString s.column ++ " \x7d"

/-- What is said about a defect. -/
def message : InternalError → String
  | errorNode span =>
    "internal error: error placeholder reached code generation at " ++ span.text
  | unresolvedName name span =>
    "internal error: identifier `" ++ name ++ "` at " ++ span.text ++ " has no resolved symbol"
  | errorType span => "internal error: expression at " ++ span.text ++ " has an error type"
  | invalidSpan span => "internal error: node has an invalid span " ++ spanFields span
  | workerPanicked unit => "internal error: worker compiling `" ++ unit ++ "` panicked"

end InternalError

end MiniLang
