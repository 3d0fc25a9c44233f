import MiniLang.Arithmetic
import MiniLang.Ir.Text

/-!
# Errors of running programs

Why a run of intermediate code cannot go on. Only some of these can happen to code that was
generated from a program; the others show that the code is no good.
-/

set_option autoImplicit false

namespace MiniLang.Ir

/-- Why a run stops without having come to its end. -/
inductive RuntimeError where
  /-- There is no function to start with. -/
  | missingEntry
  | unknownFunction (name : String)
  | arityMismatch (function : String) (expected found : Nat)
  | unknownLabel (function label : String)
  | undefinedTemp (function : String) (temp : Temp)
  | uninitialized (place : Place)
  /-- The value of a call is needed, and the function came to its end without one. -/
  | missingValue (function : String)
  | arithmetic (cause : ArithmeticError)
  /-- More calls are active than there may be. -/
  | stackOverflow (limit : Nat)
  /-- The program takes more steps than it was given. -/
  | stepLimit (limit : Nat)
  deriving DecidableEq, Repr

/-- What is said about a computation that has no value. -/
def arithmeticMessage : ArithmeticError → String
  | .divisionByZero => "division by zero"
  | .overflow => "arithmetic overflow"

/-- What is said about a run that stopped. -/
def RuntimeError.message : RuntimeError → String
  | missingEntry => "program has no entry function"
  | unknownFunction name => "call to unknown function `" ++ name ++ "`"
  | arityMismatch function expected found =>
    "function `" ++ function ++ "` expects " ++ toString expected ++ " argument(s), got " ++
      toString found
  | unknownLabel function label =>
    "jump to unknown label `" ++ label ++ "` in `" ++ function ++ "`"
  | undefinedTemp function temp =>
    "temporary " ++ temp.text ++ " read before it was written in `" ++ function ++ "`"
  | uninitialized place => "`" ++ place.text ++ "` read before it was written"
  | missingValue function => "function `" ++ function ++ "` returned no value"
  | arithmetic cause => arithmeticMessage cause
  | stackOverflow limit => "call depth exceeded " ++ toString limit
  | stepLimit limit => "step limit of " ++ toString limit ++ " exceeded"

end MiniLang.Ir
