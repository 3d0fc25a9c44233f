import MiniLang.Syntax.Operator

/-!
# Intermediate code

Programs as flat lists of instructions. An instruction reads constants and temporaries, and writes
at most one temporary; variables live in places, of which each call of a function has its own, and
all calls share the global ones. Control moves to labels of the same function.
-/

set_option autoImplicit false

namespace MiniLang.Ir

/-- The number of a temporary of a function. -/
abbrev Temp := Nat

/-- What an instruction reads: a constant or a temporary. Truth values are the constants 0 and 1. -/
inductive Operand where
  | const (value : Int)
  | temp (number : Temp)
  deriving DecidableEq, Repr

/-- Where a variable lives. -/
inductive Place where
  /-- Each call of a function has its own. -/
  | frame (name : String)
  /-- The whole program shares it. -/
  | global (name : String)
  deriving DecidableEq, Repr

/-- Instructions. -/
inductive Instr where
  | binary (dest : Temp) (op : BinaryOp) (left right : Operand)
  | unary (dest : Temp) (op : UnaryOp) (operand : Operand)
  | load (dest : Temp) (place : Place)
  | store (place : Place) (value : Operand)
  | call (dest : Option Temp) (callee : String) (arguments : List Operand)
  | jump (target : String)
  /-- Goes to the first label if the condition is not zero, and to the second if it is. -/
  | branch (condition : Operand) (thenLabel elseLabel : String)
  /-- Does nothing; control can get here by the name. -/
  | label (name : String)
  | ret (value : Option Operand)
  deriving DecidableEq, Repr

namespace Instr

/-- The temporary that an instruction writes. -/
def dest? : Instr → Option Temp
  | binary dest _ _ _ => some dest
  | unary dest _ _ => some dest
  | load dest _ => some dest
  | call dest _ _ => dest
  | _ => none

/-- The label that stands at an instruction. -/
def label? : Instr → Option String
  | label name => some name
  | _ => none

/-- Whether an instruction leaves its function. -/
def isReturn : Instr → Bool
  | ret _ => true
  | _ => false

end Instr

/-- A function: where its arguments go, what it does, and how many temporaries that takes. -/
structure Function where
  name : String
  params : List Place
  code : List Instr
  temps : Nat
  deriving DecidableEq, Repr

namespace Function

/-- The labels of a function in order. -/
def labels (f : Function) : List String := f.code.filterMap Instr.label?

end Function

/-- A program: the function it starts with, and the declared functions in the order of the source
text. -/
structure Program where
  functions : List Function
  deriving DecidableEq, Repr

namespace Program

/-- The name of the function that a program starts with; no declared function can have it. -/
def entryName : String := "$entry"

/-- The first function with a given name. -/
def function? (p : Program) (name : String) : Option Function :=
  p.functions.find? (·.name == name)

/-- The function that a program starts with. -/
def entry? (p : Program) : Option Function := p.function? entryName

end Program

end MiniLang.Ir
