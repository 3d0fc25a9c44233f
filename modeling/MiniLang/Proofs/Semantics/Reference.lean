import MiniLang.Integer
import MiniLang.Syntax.Stmt
import MiniLang.Table

/-!
# What programs mean

The reference semantics of the language, by evaluation of the tree of a program. Operands and
arguments are evaluated from left to right; `&&` and `||` leave their right operand alone when the
left one decides; an assignment has the assigned value. Names are looked up in the scopes around
them, from the inside out: each block has a scope of its own, and each call of a function starts
with a scope that holds its arguments and nothing else. A name that none of these scopes holds is
that of a global variable, which is unset at first. At most `maxActive` calls are active at a time.

A loop may be given only so many rounds, so that every evaluation has an outcome: a program
diverges if no number of rounds is enough for it (`Diverges`), and gives a result if some number is
(`Gives`).
-/

set_option autoImplicit false

namespace MiniLang.Semantics

/-- Values of expressions. -/
inductive Value where
  | int (n : Int)
  | bool (b : Bool)
  /-- What the call of a function gives that returns nothing. -/
  | unit
  deriving DecidableEq, Repr

/-- Why an evaluation cannot go on. -/
inductive Failure where
  | divisionByZero
  /-- A number does not fit into sixty-four bits. -/
  | overflow
  /-- More calls are active than there may be. -/
  | stackOverflow
  /-- A global variable is read that has no value yet. -/
  | unset (name : String)
  deriving DecidableEq, Repr

/-- What comes out of an evaluation. -/
inductive Outcome (α : Type) where
  | done (result : α)
  | failed (failure : Failure)
  /-- The program means nothing here; programs without errors never get here. -/
  | stuck
  /-- A loop did not come to its end in the rounds it was given. -/
  | unfinished
  deriving DecidableEq, Repr

namespace Outcome

/-- Goes on with a result, if there is one. -/
def bind {α β : Type} : Outcome α → (α → Outcome β) → Outcome β
  | done a, f => f a
  | failed failure, _ => failed failure
  | stuck, _ => stuck
  | unfinished, _ => unfinished

instance : Monad Outcome where
  pure := done
  bind := bind

end Outcome

/-- What an evaluation reads and writes. -/
structure Memory where
  /-- The scopes of the running function, the innermost first; at the top level there is none. -/
  scopes : List (Table String Value) := []
  globals : Table String Value := .empty
  /-- What was printed, in order. -/
  printed : List Int := []

/-- What gives a global variable its first value. -/
inductive FirstValue where
  /-- Its declaration alone: an assignment that runs earlier leaves the variable unset. -/
  | declaration
  /-- Whatever stores to it first: its declaration, or an assignment that runs earlier. -/
  | store
  deriving DecidableEq, Repr

namespace Memory

/-- The value of a name in the innermost scope that holds it. -/
def find? (name : String) : List (Table String Value) → Option Value
  | [] => none
  | scope :: outer =>
    match scope.get? name with
    | some value => some value
    | none => find? name outer

/-- The scopes after the innermost one that holds a name has got another value for it. -/
def update? (name : String) (value : Value) :
    List (Table String Value) → Option (List (Table String Value))
  | [] => none
  | scope :: outer =>
    match scope.get? name with
    | some _ => some (scope.insert name value :: outer)
    | none => (update? name value outer).map (scope :: ·)

/-- Reads a variable. -/
def read (m : Memory) (name : String) : Outcome Value :=
  match find? name m.scopes with
  | some value => .done value
  | none =>
    match m.globals.get? name with
    | some value => .done value
    | none => .failed (.unset name)

/-- Gives a variable its first value: in the innermost scope, or among the globals if there is no
scope. -/
def declare (m : Memory) (name : String) (value : Value) : Memory :=
  match m.scopes with
  | [] => { m with globals := m.globals.insert name value }
  | scope :: outer => { m with scopes := scope.insert name value :: outer }

/-- Gives a variable another value. -/
def assign (first : FirstValue) (m : Memory) (name : String) (value : Value) : Memory :=
  match update? name value m.scopes with
  | some scopes => { m with scopes := scopes }
  | none =>
    if first = .store ∨ (m.globals.get? name).isSome then
      { m with globals := m.globals.insert name value }
    else
      m

end Memory

/-- Evaluations that give a value or not, and change the memory. -/
abbrev Eval := StateT Memory Outcome

namespace Eval

/-- An evaluation that leaves the memory alone. -/
def of {α : Type} (outcome : Outcome α) : Eval α := fun m => outcome.bind fun a => .done (a, m)

/-- Evaluates in a scope of its own, which is gone afterwards. -/
def inScope {α : Type} (action : Eval α) : Eval α := fun m => do
  let (a, after) ← action { m with scopes := .empty :: m.scopes }
  return (a, { after with scopes := after.scopes.tail })

/-- Evaluates with other scopes than those of the running function, to which it comes back. -/
def within {α : Type} (scopes : List (Table String Value)) (action : Eval α) : Eval α := fun m => do
  let (a, after) ← action { m with scopes := scopes }
  return (a, { after with scopes := m.scopes })

end Eval

/-- The value that is written out. -/
def Value.ofLiteral : Literal → Value
  | .int n => .int n
  | .bool b => .bool b

/-- A number as a result, if sixty-four bits can hold it. -/
def fitting (n : Int) : Outcome Value :=
  if Integer.InRange n then .done (.int n) else .failed .overflow

/-- What an operator between two operands gives. The quotient goes toward zero; the remainder has
the sign of the dividend and exists only where the quotient does. -/
def operate : BinaryOp → Value → Value → Outcome Value
  | .add, .int a, .int b => fitting (a + b)
  | .sub, .int a, .int b => fitting (a - b)
  | .mul, .int a, .int b => fitting (a * b)
  | .div, .int a, .int b => if b = 0 then .failed .divisionByZero else fitting (a.tdiv b)
  | .rem, .int a, .int b =>
    if b = 0 then .failed .divisionByZero
    else if Integer.InRange (a.tdiv b) then .done (.int (a.tmod b))
    else .failed .overflow
  | .lt, .int a, .int b => .done (.bool (a < b))
  | .le, .int a, .int b => .done (.bool (a ≤ b))
  | .gt, .int a, .int b => .done (.bool (a > b))
  | .ge, .int a, .int b => .done (.bool (a ≥ b))
  | .eq, .int a, .int b => .done (.bool (a = b))
  | .ne, .int a, .int b => .done (.bool (a ≠ b))
  | .eq, .bool a, .bool b => .done (.bool (a == b))
  | .ne, .bool a, .bool b => .done (.bool (a != b))
  | .and, .bool a, .bool b => .done (.bool (a && b))
  | .or, .bool a, .bool b => .done (.bool (a || b))
  | _, _, _ => .stuck

/-- What an operator before its operand gives. -/
def operateUnary : UnaryOp → Value → Outcome Value
  | .neg, .int a => fitting (-a)
  | .not, .bool a => .done (.bool !a)
  | _, _ => .stuck

/-- The value of an operator that the left operand decides. -/
def decided? : BinaryOp → Value → Option Value
  | .and, .bool false => some (.bool false)
  | .or, .bool true => some (.bool true)
  | _, _ => none

/-- What a call of the function with a given name does with given arguments. -/
abbrev Calls := String → List Value → Eval Value

/-- Prints its only argument. -/
def print : List Value → Eval Value
  | [.int n] => fun m => .done (.unit, { m with printed := m.printed ++ [n] })
  | _ => .of .stuck

section

variable (first : FirstValue) (call : Calls)

mutual

/-- Evaluates an expression. -/
def evalExpr : Expr → Eval Value
  | .literal _ _ value => return .ofLiteral value
  | .var _ _ name => fun m => (m.read name).bind fun value => .done (value, m)
  | .binary _ _ op left right => do
    let a ← evalExpr left
    match decided? op a with
    | some value => return value
    | none =>
      let b ← evalExpr right
      .of (operate op a b)
  | .unary _ _ op operand => do
    let a ← evalExpr operand
    .of (operateUnary op a)
  | .call _ _ callee _ arguments => do
    let values ← evalExprs arguments
    call callee values
  | .assignment _ _ target _ value => do
    let a ← evalExpr value
    fun m => .done (a, m.assign first target a)

/-- Evaluates expressions from left to right. -/
def evalExprs : List Expr → Eval (List Value)
  | [] => return []
  | e :: es => do
    let value ← evalExpr e
    let values ← evalExprs es
    return value :: values

end

/-- Evaluates an expression to a truth value. -/
def evalCondition (e : Expr) : Eval Bool := do
  match ← evalExpr first call e with
  | .bool b => return b
  | _ => .of .stuck

/-- How a statement ends. -/
inductive Flow where
  /-- The next statement comes. -/
  | next
  /-- The function gives back a value. -/
  | returned (value : Value)
  deriving DecidableEq, Repr

/-- Runs a body as long as a test holds; the number says how many tests there may be. -/
def repeatWhile (test : Eval Bool) (body : Eval Flow) : Nat → Eval Flow
  | 0 => .of .unfinished
  | rounds + 1 => do
    if ← test then
      match ← body with
      | .next => repeatWhile test body rounds
      | .returned value => return .returned value
    else
      return .next

variable (rounds : Nat)

mutual

/-- Runs a statement; the number says how many rounds each loop may take. -/
def execStmt : Stmt → Eval Flow
  | .letVar _ _ name _ _ value => do
    let a ← evalExpr first call value
    fun m => .done (.next, m.declare name a)
  | .ifThen _ condition thenBlock => do
    if ← evalCondition first call condition then execBlock thenBlock else return .next
  | .ifThenElse _ condition thenBlock elseBranch => do
    if ← evalCondition first call condition then execBlock thenBlock else execStmt elseBranch
  | .whileLoop _ condition body =>
    repeatWhile (evalCondition first call condition) (execBlock body) rounds
  | .block b => execBlock b
  | .expression _ e => do
    let _ ← evalExpr first call e
    return .next
  | .function _ _ _ => return .next
  | .ret _ none => return .returned .unit
  | .ret _ (some e) => do
    let a ← evalExpr first call e
    return .returned a
  | .error _ => .of .stuck

/-- Runs the statements of a block, in a scope of their own. -/
def execBlock : Block → Eval Flow
  | .mk _ _ body => .inScope (execAll body)

/-- Runs statements in order, up to one that returns. -/
def execAll : List Stmt → Eval Flow
  | [] => return .next
  | s :: ss => do
    match ← execStmt s with
    | .next => execAll ss
    | .returned value => return .returned value

end

end

/-- The function of a program with a given name. -/
def function? (p : Program) (name : String) : Option (FunctionHeader × Block) :=
  p.functions.find? (·.1.name == name)

/-- The scope with which a call starts. -/
def bindParams (scope : Table String Value) : List Param → List Value → Table String Value
  | param :: params, value :: values => bindParams (scope.insert param.name value) params values
  | _, _ => scope

/-- The value of a call, from how the body of its function ended. -/
def Flow.value : Flow → Value
  | next => .unit
  | returned value => value

/-- A call by name, given how the bodies of functions are run. -/
def callWith (p : Program) (runBody : Block → Eval Flow) : Calls := fun name arguments =>
  if name = "print" then
    print arguments
  else
    match function? p name with
    | none => .of .stuck
    | some (header, body) =>
      if header.params.length = arguments.length then
        Flow.value <$> .within [bindParams .empty header.params arguments] (runBody body)
      else
        .of .stuck

/-- Calls in a program, if the given number of calls can become active besides those that are. -/
def invoke (first : FirstValue) (p : Program) (rounds : Nat) : Nat → Calls
  | 0 => callWith p fun _ => .of (.failed .stackOverflow)
  | free + 1 => callWith p fun body => execAll first (invoke first p rounds free) rounds body.body

/-- How many calls can be active at a time, the program itself counted as one. -/
def maxActive : Nat := 512

/-- Runs a program and gives what it prints; each loop may take the given number of rounds. -/
def run (first : FirstValue) (p : Program) (rounds : Nat) : Outcome (List Int) :=
  (execAll first (invoke first p rounds (maxActive - 1)) rounds p.body {}).bind fun (_, m) =>
    .done m.printed

/-- What a program comes to: what it printed, or why it broke off. -/
abbrev Result := Except Failure (List Int)

/-- A result as an outcome. -/
def Outcome.ofResult : Result → Outcome (List Int)
  | .ok printed => .done printed
  | .error failure => .failed failure

/-- A program comes to a result. -/
def Gives (first : FirstValue) (p : Program) (r : Result) : Prop :=
  ∃ rounds, run first p rounds = .ofResult r

end MiniLang.Semantics
