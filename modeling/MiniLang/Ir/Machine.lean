import MiniLang.Ir.RuntimeError
import MiniLang.Table

/-!
# The machine

Runs intermediate code. A state holds the active calls, each with the code it still has to run, the
global places, and what was printed. `step` runs one instruction; `run` takes steps until the entry
function ends, an error stops it, or the allowed number of steps is used up. A function that has no
code left ends without a value, which takes no step.

Of several functions with one name calls reach the last, and of several equal labels of a function
jumps reach the last.
-/

set_option autoImplicit false

namespace MiniLang.Ir

/-- How many calls can be active at a time, that of the entry function included. -/
def maxDepth : Nat := 512

/-- How many steps a run may take if nobody says otherwise. -/
def defaultStepLimit : Nat := 10000000

/-- The function that every program can call without having it. It prints a number. -/
def printName : String := "print"

/-- The function that a call with a given name reaches. -/
def Program.callable? (p : Program) (name : String) : Option Function :=
  (p.functions.filter (·.name == name)).getLast?

/-- The code from the last label with a given name on. -/
def codeAt? (label : String) : List Instr → Option (List Instr)
  | [] => none
  | i :: code =>
    match codeAt? label code with
    | some found => some found
    | none => if i.label? = some label then some (i :: code) else none

/-- An active call: the function, the code it still has to run, and its temporaries and places. -/
structure Frame where
  function : Function
  code : List Instr
  temps : Table Temp Int := .empty
  places : Table String Int := .empty

namespace Frame

/-- Reads an operand. -/
def read (f : Frame) : Operand → Except RuntimeError Int
  | .const value => .ok value
  | .temp t =>
    match f.temps.get? t with
    | some value => .ok value
    | none => .error (.undefinedTemp f.function.name t)

/-- Reads operands in order. -/
def readAll (f : Frame) : List Operand → Except RuntimeError (List Int)
  | [] => .ok []
  | o :: os =>
    match f.read o with
    | .error e => .error e
    | .ok value =>
      match f.readAll os with
      | .error e => .error e
      | .ok values => .ok (value :: values)

/-- Writes a temporary. -/
def write (f : Frame) (t : Temp) (value : Int) : Frame :=
  { f with temps := f.temps.insert t value }

/-- Puts arguments where the parameters live. Only places of the call itself take them. -/
def bind (places : Table String Int) : List Place → List Int → Table String Int
  | .frame name :: params, value :: values => bind (places.insert name value) params values
  | .global _ :: params, _ :: values => bind places params values
  | _, _ => places

/-- The frame of a new call. -/
def enter (f : Function) (arguments : List Int) : Frame :=
  { function := f, code := f.code, places := bind .empty f.params arguments }

/-- Moves to a label. -/
def jump (f : Frame) (label : String) : Except RuntimeError Frame :=
  match codeAt? label f.function.code with
  | some code => .ok { f with code := code }
  | none => .error (.unknownLabel f.function.name label)

end Frame

/-- A call that waits for the function it called. -/
structure Waiting where
  frame : Frame
  /-- The temporary that takes the value. -/
  dest : Option Temp
  callee : String

/-- The state of a run. -/
structure State where
  /-- The call whose code is running. -/
  frame : Frame
  /-- The calls below it, the latest first. -/
  waiting : List Waiting := []
  globals : Table String Int := .empty
  /-- What was printed, the latest first. -/
  printed : List Int := []

namespace State

/-- Writes a temporary of the running call. -/
def write (s : State) (t : Temp) (value : Int) : State := { s with frame := s.frame.write t value }

/-- Reads a place. -/
def load (s : State) (place : Place) : Except RuntimeError Int :=
  let value :=
    match place with
    | .frame name => s.frame.places.get? name
    | .global name => s.globals.get? name
  match value with
  | some value => .ok value
  | none => .error (.uninitialized place)

/-- Writes a place. -/
def store (s : State) (place : Place) (value : Int) : State :=
  match place with
  | .frame name => { s with frame := { s.frame with places := s.frame.places.insert name value } }
  | .global name => { s with globals := s.globals.insert name value }

/-- Hands the value of a finished call to a call that waits for it. -/
def resume (s : State) (w : Waiting) (waiting : List Waiting) (value : Option Int) :
    Except RuntimeError State :=
  let s := { s with frame := w.frame, waiting := waiting }
  match w.dest, value with
  | none, _ => .ok s
  | some t, some value => .ok (s.write t value)
  | some _, none => .error (.missingValue w.callee)

/-- The active calls. -/
def depth (s : State) : Nat := s.waiting.length + 1

end State

/-- What a step leads to. -/
inductive Outcome where
  /-- The run goes on. -/
  | running (state : State)
  /-- The run is over, and has printed these values. -/
  | finished (printed : List Int)

namespace State

/-- Ends the running call. -/
def giveBack (s : State) (value : Option Int) : Except RuntimeError Outcome :=
  match s.waiting with
  | [] => .ok (.finished s.printed.reverse)
  | w :: waiting => (s.resume w waiting value).map .running

/-- Calls a function that has to be there, and with as many arguments as it takes. -/
def enter (p : Program) (s : State) (dest : Option Temp) (callee : String) (arguments : List Int) :
    Except RuntimeError State :=
  match p.callable? callee with
  | none => .error (.unknownFunction callee)
  | some f =>
    if f.params.length ≠ arguments.length then
      .error (.arityMismatch callee f.params.length arguments.length)
    else if maxDepth ≤ s.depth then
      .error (.stackOverflow maxDepth)
    else
      .ok { s with frame := .enter f arguments, waiting := ⟨s.frame, dest, callee⟩ :: s.waiting }

/-- Prints the first argument. There is no value that a temporary could take. -/
def print (s : State) (dest : Option Temp) (arguments : List Int) : Except RuntimeError State :=
  match arguments, dest with
  | [], _ => .error (.arityMismatch printName 1 0)
  | value :: _, none => .ok { s with printed := value :: s.printed }
  | _ :: _, some _ => .error (.missingValue printName)

end State

/-- The value of a computation in a run. -/
def computed (value : Except ArithmeticError Int) : Except RuntimeError Int :=
  value.mapError .arithmetic

/-- Runs one instruction, in a state that has moved past it already. -/
def step (p : Program) (s : State) : Instr → Except RuntimeError Outcome
  | .binary dest op left right => do
    let a ← s.frame.read left
    let b ← s.frame.read right
    let value ← computed (Arithmetic.applyBinary op a b)
    return .running (s.write dest value)
  | .unary dest op operand => do
    let a ← s.frame.read operand
    let value ← computed (Arithmetic.applyUnary op a)
    return .running (s.write dest value)
  | .load dest place => do
    let value ← s.load place
    return .running (s.write dest value)
  | .store place operand => do
    let value ← s.frame.read operand
    return .running (s.store place value)
  | .call dest callee operands => do
    let arguments ← s.frame.readAll operands
    let s ← if callee = printName then s.print dest arguments else s.enter p dest callee arguments
    return .running s
  | .jump target => do
    let frame ← s.frame.jump target
    return .running { s with frame := frame }
  | .branch condition thenLabel elseLabel => do
    let value ← s.frame.read condition
    let frame ← s.frame.jump (if value ≠ 0 then thenLabel else elseLabel)
    return .running { s with frame := frame }
  | .label _ => return .running s
  | .ret none => s.giveBack none
  | .ret (some operand) => do
    let value ← s.frame.read operand
    s.giveBack (some value)

/-- What a state has to do next. -/
inductive Next where
  /-- An instruction, and the state that has moved past it. -/
  | instr (i : Instr) (state : State)
  /-- Nothing: the run is over, and has printed these values. -/
  | finished (printed : List Int)

/-- Ends the calls that have no code left, one after the other, until one has an instruction to
run. -/
def settle (globals : Table String Int) (printed : List Int) :
    Frame → List Waiting → Except RuntimeError Next
  | frame, waiting =>
    match frame.code with
    | i :: code => .ok (.instr i ⟨{ frame with code := code }, waiting, globals, printed⟩)
    | [] =>
      match waiting with
      | [] => .ok (.finished printed.reverse)
      | w :: waiting =>
        match w.dest with
        | none => settle globals printed w.frame waiting
        | some _ => .error (.missingValue w.callee)

/-- The next instruction of a state. -/
def State.next (s : State) : Except RuntimeError Next :=
  settle s.globals s.printed s.frame s.waiting

/-- Goes on with a run for at most the given number of steps; `limit` is their number in the whole
run. -/
def runFor (p : Program) (limit : Nat) : Nat → State → Except RuntimeError (List Int)
  | steps, s =>
    match s.next with
    | .error e => .error e
    | .ok (.finished printed) => .ok printed
    | .ok (.instr i s) =>
      match steps with
      | 0 => .error (.stepLimit limit)
      | steps + 1 =>
        match step p s i with
        | .error e => .error e
        | .ok (.finished printed) => .ok printed
        | .ok (.running s) => runFor p limit steps s

/-- The state in which a program starts. -/
def start (p : Program) : Except RuntimeError State :=
  match p.callable? Program.entryName with
  | none => .error .missingEntry
  | some f =>
    if f.params.length ≠ 0 then .error (.arityMismatch Program.entryName f.params.length 0)
    else .ok { frame := .enter f [] }

/-- Runs a program for at most `limit` steps and gives what it prints. -/
def run (p : Program) (limit : Nat) : Except RuntimeError (List Int) :=
  match start p with
  | .error e => .error e
  | .ok s => runFor p limit limit s

end MiniLang.Ir
