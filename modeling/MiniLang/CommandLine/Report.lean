import MiniLang.CommandLine.Files
import MiniLang.CommandLine.Options
import MiniLang.Compilation
import MiniLang.Ir.Machine
import MiniLang.Syntax.Printer
import MiniLang.Text.Snippet

/-!
# Reports

What the command line writes for the files it is given. All files are read before anything is
written. With several files each has a heading. Diagnostics go to the error output, and so does what
is said about a run that stopped. The exit code says whether anything went wrong: an error in a
file, a run that stopped, or a file that cannot be read.
-/

set_option autoImplicit false

namespace MiniLang.CommandLine

/-- What is written, and whether something went wrong. -/
structure Report where
  output : String := ""
  errors : String := ""
  failed : Bool := false
  deriving DecidableEq, Repr

namespace Report

/-- One report and then another. -/
def append (a b : Report) : Report :=
  ⟨a.output ++ b.output, a.errors ++ b.errors, a.failed || b.failed⟩

instance : Append Report := ⟨append⟩

/-- Writes text to the output. -/
def write (text : String) : Report := { output := text }

/-- Nothing more comes after a failure of this kind. -/
def abort (problem cause : String) : Report :=
  { errors := "Error: " ++ problem ++ "\n\nCaused by:\n    " ++ cause ++ "\n", failed := true }

end Report

/-- Lines of text. -/
def lines (texts : List String) : String := String.join (texts.map (· ++ "\n"))

/-- What is said about a diagnostic. -/
def diagnosticText (o : Options) (unit : SourceUnit) (d : Diagnostic) : String :=
  let snippet := if o.snippets then Text.snippet unit.text.toList d.span else []
  lines (d.textIn unit.name :: if snippet.isEmpty then [] else [String.ofList snippet])

/-- The diagnostics of a unit. -/
def diagnosticsReport (o : Options) (unit : SourceUnit) (ds : List Diagnostic) : Report :=
  { errors := String.join (ds.map (diagnosticText o unit)), failed := Diagnostics.hasErrors ds }

/-- The heading of a unit; a unit that is alone has none. -/
def heading (units : List SourceUnit) (unit : SourceUnit) : Report :=
  .write (if 1 < units.length then "==> " ++ unit.name ++ " <==\n" else "")

/-- The tokens of a unit. -/
def tokensReport (o : Options) (unit : SourceUnit) : Report :=
  let tokens := deliveries unit.text.toList
  .write (lines (tokens.map fun d => d.token.line)) ++
    diagnosticsReport o unit (tokens.flatMap Delivery.diagnostics)

/-- A run of the code of a unit. What was printed is lost if the run stops early. -/
def runReport (unit : SourceUnit) (code : Ir.Program) : Report :=
  match Ir.run code Ir.defaultStepLimit with
  | .ok printed => .write (lines (printed.map toString))
  | .error e =>
    { errors := unit.name ++ ": runtime error: " ++ e.message ++ "\n", failed := true }

/-- What is written for a compiled unit behind its heading. -/
def resultReport (o : Options) (unit : SourceUnit) (c : Compilation) : Report :=
  if o.emit = some .ast then
    .write c.program.text
  else
    match c.code with
    | none => {}
    | some code => if o.run then runReport unit code else .write code.text

/-- The reports of compiled units in order, up to a defect of the compiler. -/
def compiledReports (o : Options) (units : List SourceUnit) :
    List (SourceUnit × Except InternalError Compilation) → Report
  | [] => {}
  | (unit, .error e) :: _ => .abort ("internal compiler error in " ++ unit.name) e.message
  | (unit, .ok c) :: rest =>
    diagnosticsReport o unit c.diagnostics ++ heading units unit ++ resultReport o unit c ++
      compiledReports o units rest

/-- The choices for the compiler. -/
def compileOptions (o : Options) : CompileOptions :=
  { folding := !o.noFold, jobs := o.jobs.getD 1 }

/-- What is written for units. -/
def unitsReport (o : Options) (units : List SourceUnit) : Report :=
  if o.emit = some .tokens then
    (units.map fun unit => heading units unit ++ tokensReport o unit).foldl (· ++ ·) {}
  else
    compiledReports o units (units.zip (compileUnits units (compileOptions o) false))

/-- Reads files in order, up to the first that cannot be read. -/
def readUnits {m : Type → Type} [Monad m] (read : String → m (Except ReadFailure String)) :
    List String → m (Except (String × ReadFailure) (List SourceUnit))
  | [] => return .ok []
  | name :: names => do
    match ← read name with
    | .error failure => return .error (name, failure)
    | .ok text =>
      match ← readUnits read names with
      | .error failure => return .error failure
      | .ok units => return .ok (⟨name, text⟩ :: units)

/-- What comes of a call of the program. -/
structure Answer where
  code : Nat
  output : String := ""
  errors : String := ""
  deriving DecidableEq, Repr

/-- A report and the exit code that goes with it. -/
def Answer.ofReport (r : Report) : Answer := ⟨if r.failed then 1 else 0, r.output, r.errors⟩

/-- What is written for the version. -/
def versionText : String := "compiler 0.1.0\n"

/-- What is written for help. -/
def helpText : String := "Usage: compiler [OPTIONS] <FILES>...\n"

/-- Answers a call with the given arguments; `read` reads files. -/
def answer {m : Type → Type} [Monad m] (read : String → m (Except ReadFailure String))
    (arguments : List String) : m Answer := do
  match Request.ofArguments arguments with
  | .version => return { code := 0, output := versionText }
  | .help => return { code := 0, output := helpText }
  | .refuse e => return { code := 2, errors := "error: " ++ e.message ++ "\n\n" ++ helpText }
  | .compile o =>
    match ← readUnits read o.files with
    | .error (name, failure) =>
      return .ofReport (.abort ("failed to read " ++ name) failure.message)
    | .ok units => return .ofReport (unitsReport o units)

end MiniLang.CommandLine
