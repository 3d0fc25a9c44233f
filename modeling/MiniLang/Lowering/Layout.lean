import MiniLang.Ir.Basic

/-!
# The layout of generated code

How the code of an operator or a statement is put together from the code of its parts. Labels and
slots carry a number, so that those of one function differ; the name of a slot starts with a
character that no variable has.
-/

set_option autoImplicit false

namespace MiniLang.Lowering

open Ir

/-- Code that computes a value, and where the value is found after it. -/
structure Value where
  code : List Instr
  operand : Operand
  deriving DecidableEq, Repr

/-- The label of a part of a construct. -/
def label (construct part : String) (number : Nat) : String :=
  construct ++ "." ++ part ++ "." ++ toString number

/-- The name under which labels and slots know an operator that may skip its right operand. -/
def shortName : BinaryOp → String
  | .and => "and"
  | _ => "or"

/-- The place of the value of an operator that may skip its right operand. -/
def slot (op : BinaryOp) (number : Nat) : Place :=
  .frame ("$" ++ shortName op ++ "." ++ toString number)

/-- Evaluates the right operand only if the left one does not decide: a conjunction goes on after a
true operand, a disjunction after a false one. Both ways leave the value in the slot. -/
def shortCircuit (op : BinaryOp) (number : Nat) (left right : Value) (dest : Temp) : Value :=
  let rhs := label (shortName op) "rhs" number
  let done := label (shortName op) "end" number
  let test : Instr :=
    match op with
    | .and => .branch left.operand rhs done
    | _ => .branch left.operand done rhs
  { code :=
      left.code ++ [.store (slot op number) left.operand, test, .label rhs] ++
        right.code ++ [.store (slot op number) right.operand, .jump done, .label done,
          .load dest (slot op number)]
    operand := .temp dest }

/-- Runs one piece of code or no code. -/
def choice (number : Nat) (condition : Value) (thenCode : List Instr) : List Instr :=
  let yes := label "if" "then" number
  let done := label "if" "end" number
  [.label (label "if" "cond" number)] ++ condition.code ++
    [.branch condition.operand yes done, .label yes] ++ thenCode ++ [.jump done, .label done]

/-- Runs one of two pieces of code. -/
def choiceElse (number : Nat) (condition : Value) (thenCode elseCode : List Instr) : List Instr :=
  let yes := label "if" "then" number
  let no := label "if" "else" number
  let done := label "if" "end" number
  [.label (label "if" "cond" number)] ++ condition.code ++
    [.branch condition.operand yes no, .label yes] ++ thenCode ++ [.jump done, .label no] ++
    elseCode ++ [.jump done, .label done]

/-- Runs code as long as a condition holds. -/
def loop (number : Nat) (condition : Value) (body : List Instr) : List Instr :=
  let test := label "while" "cond" number
  let round := label "while" "body" number
  let done := label "while" "end" number
  [.label test] ++ condition.code ++ [.branch condition.operand round done, .label round] ++
    body ++ [.jump test, .label done]

/-- Code with a `return` at its end, added if there is none. -/
def closed (code : List Instr) : List Instr :=
  match code.getLast? with
  | some (.ret _) => code
  | _ => code ++ [.ret none]

/-- Closed code ends with a `return`. -/
theorem isReturn_getLast?_closed (code : List Instr) :
    (closed code).getLast?.map Instr.isReturn = some true := by
  unfold closed
  split
  next value ends => simp [ends, Instr.isReturn]
  next => simp [Instr.isReturn]

end MiniLang.Lowering
