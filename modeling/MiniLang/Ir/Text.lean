import MiniLang.Ir.Basic
import MiniLang.Text.Join

/-!
# The text of intermediate code

Each instruction has a line of its own, indented by two blanks unless it is a label. A function is
a line with its name and its parameters and then its instructions; an empty line stands between
functions.
-/

set_option autoImplicit false

namespace MiniLang

/-- The name of the instruction that applies an operator. -/
def BinaryOp.instruction : BinaryOp → String
  | .add => "add"
  | .sub => "sub"
  | .mul => "mul"
  | .div => "div"
  | .rem => "rem"
  | .eq => "eq"
  | .ne => "ne"
  | .lt => "lt"
  | .le => "le"
  | .gt => "gt"
  | .ge => "ge"
  | .and => "and"
  | .or => "or"

/-- The name of the instruction that applies an operator. -/
def UnaryOp.instruction : UnaryOp → String
  | .neg => "neg"
  | .not => "not"

namespace Ir

/-- A temporary as it is written. -/
def Temp.text (t : Temp) : String := "t" ++ toString t

/-- An operand as it is written. -/
def Operand.text : Operand → String
  | .const value => toString value
  | .temp number => Temp.text number

/-- A place as it is written. -/
def Place.text : Place → String
  | .frame name => "%" ++ name
  | .global name => "@" ++ name

/-- A call as it is written. -/
def callText (callee : String) (arguments : List Operand) : String :=
  "call " ++ callee ++ "(" ++ Text.joinWith ", " (arguments.map Operand.text) ++ ")"

/-- An instruction as it is written, without the end of the line. -/
def Instr.text : Instr → String
  | .binary dest op left right =>
    "  " ++ dest.text ++ " = " ++ op.instruction ++ " " ++ left.text ++ ", " ++ right.text
  | .unary dest op operand => "  " ++ dest.text ++ " = " ++ op.instruction ++ " " ++ operand.text
  | .load dest place => "  " ++ dest.text ++ " = load " ++ place.text
  | .store place value => "  store " ++ place.text ++ ", " ++ value.text
  | .call (some dest) callee arguments => "  " ++ dest.text ++ " = " ++ callText callee arguments
  | .call none callee arguments => "  " ++ callText callee arguments
  | .jump target => "  jump " ++ target
  | .branch condition thenLabel elseLabel =>
    "  branch " ++ condition.text ++ ", " ++ thenLabel ++ ", " ++ elseLabel
  | .label name => name ++ ":"
  | .ret (some value) => "  return " ++ value.text
  | .ret none => "  return"

/-- The lines of a function. -/
def Function.lines (f : Function) : List String :=
  ("fn " ++ f.name ++ "(" ++ Text.joinWith ", " (f.params.map Place.text) ++ "):") ::
    f.code.map Instr.text

/-- A function as it is written. -/
def Function.text (f : Function) : String := String.join (f.lines.map (· ++ "\n"))

/-- A program as it is written. -/
def Program.text (p : Program) : String := Text.joinWith "\n" (p.functions.map Function.text)

end Ir

end MiniLang
