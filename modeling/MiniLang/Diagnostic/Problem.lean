import MiniLang.Text.Quoted
import MiniLang.Text.Join

/-!
# Problems

A problem is something wrong, or doubtful, about a source text. Each belongs to the category of
the check that finds it; only problems of the category `lint` are warnings
(`isWarning_iff`). The wording of every problem is `Problem.message`.
-/

set_option autoImplicit false

namespace MiniLang

/-- The kind of check that finds a problem. -/
inductive Category where
  | lexical
  | syntactic
  | resolution
  | typing
  | cancellation
  | lint
  deriving DecidableEq, Repr

/-- What can be wrong or doubtful about a source text. -/
inductive Problem where
  /-- A character that begins no token. -/
  | illegalCharacter (character : Char)
  /-- A number that does not fit into sixty-four bits. -/
  | integerOverflow (literal : String)
  /-- Another token stands where a certain thing has to. -/
  | unexpectedToken (expected found : String)
  /-- The text ends inside something that was opened. -/
  | unterminated (construct : String)
  /-- The left side of an assignment is no plain name. -/
  | invalidAssignmentTarget
  /-- A function is declared inside a block. -/
  | nestedFunction (name : String)
  /-- No enclosing scope declares a name. -/
  | undeclaredIdentifier (name : String)
  /-- A scope declares a name twice. -/
  | redeclaration (name : String)
  /-- A `return` stands in no function. -/
  | returnOutsideFunction
  /-- A value of one type stands where another type is needed. -/
  | typeMismatch (expected found : String)
  /-- A call has the wrong number of arguments. -/
  | arityMismatch (name : String) (expected found : Nat)
  /-- An argument of a call has the wrong type; positions count from one. -/
  | argumentTypeMismatch (name : String) (position : Nat) (expected found : String)
  /-- Something that is called is no function. -/
  | notCallable (name : String)
  /-- Something that is assigned to is a function. -/
  | notAssignable (name : String)
  /-- A function is named where a value is needed. -/
  | functionAsValue (name : String)
  /-- A variable without a declared type starts with no value. -/
  | unitValue (name : String)
  /-- A function that has to return a value can reach its end. -/
  | missingReturn (name : String)
  /-- An operator is applied to operands of the wrong types. -/
  | invalidOperands (operator : String) (operands : List String)
  /-- The work was cancelled before it was done. -/
  | cancelled
  /-- A divisor is the number zero. -/
  | divisionByZero
  /-- A statement follows a `return` of the same list. -/
  | unreachableCode
  deriving DecidableEq, Repr

namespace Problem

/-- The name of a kind of problem. -/
def name : Problem → String
  | illegalCharacter _ => "IllegalCharacter"
  | integerOverflow _ => "IntegerOverflow"
  | unexpectedToken _ _ => "UnexpectedToken"
  | unterminated _ => "UnterminatedConstruct"
  | invalidAssignmentTarget => "InvalidAssignmentTarget"
  | nestedFunction _ => "NestedFunction"
  | undeclaredIdentifier _ => "UndeclaredIdentifier"
  | redeclaration _ => "Redeclaration"
  | returnOutsideFunction => "ReturnOutsideFunction"
  | typeMismatch _ _ => "TypeMismatch"
  | arityMismatch _ _ _ => "ArityMismatch"
  | argumentTypeMismatch _ _ _ _ => "ArgumentTypeMismatch"
  | notCallable _ => "NotCallable"
  | notAssignable _ => "NotAssignable"
  | functionAsValue _ => "FunctionAsValue"
  | unitValue _ => "UnitValue"
  | missingReturn _ => "MissingReturn"
  | invalidOperands _ _ => "InvalidOperands"
  | cancelled => "Cancelled"
  | divisionByZero => "DivisionByZero"
  | unreachableCode => "UnreachableCode"

/-- The check that finds a problem. -/
def category : Problem → Category
  | illegalCharacter _ | integerOverflow _ => .lexical
  | unexpectedToken _ _ | unterminated _ | invalidAssignmentTarget | nestedFunction _ => .syntactic
  | undeclaredIdentifier _ | redeclaration _ | returnOutsideFunction => .resolution
  | typeMismatch _ _ | arityMismatch _ _ _ | argumentTypeMismatch _ _ _ _ | notCallable _
  | notAssignable _ | functionAsValue _ | unitValue _ | missingReturn _ | invalidOperands _ _ =>
    .typing
  | cancelled => .cancellation
  | divisionByZero | unreachableCode => .lint

/-- Doubtful but allowed. -/
def isWarning (p : Problem) : Bool := p.category == .lint

/-- The warnings are a divisor of zero and unreachable code. -/
theorem isWarning_iff (p : Problem) : p.isWarning ↔ p = divisionByZero ∨ p = unreachableCode := by
  cases p <;> simp [isWarning, category]

/-- A text between backward quotes. -/
def ticked (text : String) : String := "`" ++ text ++ "`"

/-- What users read about a problem. -/
def message : Problem → String
  | illegalCharacter character => "illegal character " ++ Text.quoted character
  | integerOverflow literal => "integer literal " ++ ticked literal ++ " is out of range"
  | unexpectedToken expected found => "expected " ++ expected ++ ", found " ++ ticked found
  | unterminated construct => "unterminated " ++ construct
  | invalidAssignmentTarget => "invalid assignment target"
  | nestedFunction name => "function " ++ ticked name ++ " must be declared at the top level"
  | undeclaredIdentifier name => "undeclared identifier " ++ ticked name
  | redeclaration name => ticked name ++ " is already declared in this scope"
  | returnOutsideFunction => "`return` outside of a function"
  | typeMismatch expected found =>
    "type mismatch: expected " ++ ticked expected ++ ", found " ++ ticked found
  | arityMismatch name expected found =>
    "function " ++ ticked name ++ " expects " ++ toString expected ++ " argument(s), found " ++
      toString found
  | argumentTypeMismatch name position expected found =>
    "argument " ++ toString position ++ " of " ++ ticked name ++ ": expected " ++
      ticked expected ++ ", found " ++ ticked found
  | notCallable name => ticked name ++ " is not a function"
  | notAssignable name => "cannot assign to function " ++ ticked name
  | functionAsValue name => "function " ++ ticked name ++ " cannot be used as a value"
  | unitValue name => "expression of type `unit` cannot initialize " ++ ticked name
  | missingReturn name =>
    "function " ++ ticked name ++ " does not return a value on every path"
  | invalidOperands operator operands =>
    "operator " ++ ticked operator ++ " cannot be applied to " ++
      Text.joinWith " and " (operands.map ticked)
  | cancelled => "compilation cancelled"
  | divisionByZero => "division by zero"
  | unreachableCode => "unreachable statement"

end Problem

end MiniLang
