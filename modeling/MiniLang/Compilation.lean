import MiniLang.Lowering.Program
import MiniLang.Syntax.Parser.Source
import MiniLang.Typing.Statement

/-!
# Compilation

Takes a source text through all stages: its program is parsed, its names are resolved, its types
are checked, and code is generated. Later stages are left out after a parse with errors and after a
cancellation, and there is code only if no error was found.

Several units are compiled side by side, in chunks of as many as there are workers. The results come
in the order of the units, in whatever order the workers of a chunk get done.
-/

set_option autoImplicit false

namespace MiniLang

/-- A source text and the name it goes by. -/
structure SourceUnit where
  name : String
  text : String
  deriving DecidableEq, Repr

/-- What can be chosen about a compilation. -/
structure CompileOptions where
  /-- Whether operators between written-out values are computed while code is generated. -/
  folding : Bool := true
  /-- How many units are compiled at a time; zero counts as one. -/
  jobs : Nat := 1
  deriving DecidableEq, Repr

/-- What comes out of the compilation of a unit. -/
structure Compilation where
  /-- The name of the unit. -/
  unit : String
  /-- The program, also if there was something wrong with it. -/
  program : Program
  /-- The code, if there was no error. -/
  code : Option Ir.Program
  /-- All that was found, in the order in which it was found. -/
  diagnostics : List Diagnostic

namespace Compilation

/-- Whether an error was found. -/
def hasErrors (c : Compilation) : Bool := Diagnostics.hasErrors c.diagnostics

end Compilation

/-- The stages after a parse: the code, if all goes well, and the session. -/
def compileProgram (options : CompileOptions) (p : Program) (s : Session) :
    Except InternalError (Option Ir.Program × Session) :=
  let (resolution, s) := resolve p s
  if s.cancelled then
    .ok (none, s)
  else
    let (typed, s) := typeCheck p resolution s
    if s.hasErrors then
      .ok (none, s)
    else
      match generate options.folding typed with
      | .ok code => .ok (some code, s)
      | .error e => .error e

/-- Compiles a unit in a session. It fails only for a defect of the compiler itself. -/
def compileIn (s : Session) (unit : SourceUnit) (options : CompileOptions) :
    Except InternalError Compilation :=
  let parsed := parseSource unit.text.toList s
  if parsed.valid && !parsed.session.cancelled then
    match compileProgram options parsed.program parsed.session with
    | .ok (code, s) => .ok ⟨unit.name, parsed.program, code, s.diagnostics⟩
    | .error e => .error e
  else
    .ok ⟨unit.name, parsed.program, none, parsed.session.diagnostics⟩

/-- The session of a unit whose compilation was cancelled before it started, or is never
cancelled. -/
def Session.ofUnit (cancelled : Bool) : Session := if cancelled then fresh.cancel else fresh

/-- Compiles a unit. -/
def compile (unit : SourceUnit) (options : CompileOptions) (cancelled : Bool) :
    Except InternalError Compilation :=
  compileIn (.ofUnit cancelled) unit options

/-- A list cut into pieces of `size + 1` elements; the last may have fewer. -/
def chunks {α : Type} (size : Nat) : List α → List (List α)
  | [] => []
  | a :: as => (a :: as.take size) :: chunks size (as.drop size)
termination_by as => as.length

/-- What the workers of a chunk have come to, by the place of the unit. -/
abbrev Results := Table Nat (Except InternalError Compilation)

/-- A worker gets done with the unit at a place. -/
def finishUnit (units : List SourceUnit) (options : CompileOptions) (cancelled : Bool)
    (results : Results) (place : Nat) : Results :=
  match units[place]? with
  | some unit => results.insert place (compile unit options cancelled)
  | none => results

/-- The results of a chunk from a given place on. A worker without a result broke off. -/
def collect (results : Results) : Nat → List SourceUnit → List (Except InternalError Compilation)
  | _, [] => []
  | place, unit :: units =>
    (results.get? place).getD (.error (.workerPanicked unit.name)) ::
      collect results (place + 1) units

/-- Compiles the units of a chunk, whose workers get done in the given order. -/
def compileChunk (order : List Nat) (options : CompileOptions) (cancelled : Bool)
    (units : List SourceUnit) : List (Except InternalError Compilation) :=
  collect (order.foldl (finishUnit units options cancelled) .empty) 0 units

/-- Compiles units in chunks, where `order` says in which order the workers of a chunk get done, by
the number of the chunk and its units. -/
def compileUnitsIn (order : Nat → List SourceUnit → List Nat) (units : List SourceUnit)
    (options : CompileOptions) (cancelled : Bool) : List (Except InternalError Compilation) :=
  (chunks (max options.jobs 1 - 1) units).zipIdx.flatMap fun (chunk, number) =>
    compileChunk (order number chunk) options cancelled chunk

/-- Compiles units in chunks, whose workers get done one after the other. -/
def compileUnits (units : List SourceUnit) (options : CompileOptions) (cancelled : Bool) :
    List (Except InternalError Compilation) :=
  compileUnitsIn (fun _ chunk => List.range chunk.length) units options cancelled

end MiniLang
