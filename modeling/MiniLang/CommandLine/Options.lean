import MiniLang.Integer

/-!
# Options

Reads the arguments of the command line. Options come in a long form, `--jobs 4` or `--jobs=4`, and
some of them in a short one, `-j 4`, `-j4` or `-j=4`; short options without values can share one
dash. Everything else is the name of a file, and so is everything behind `--`. Arguments are read in
order: the first one that is wrong, or that asks for the version or for help, decides. What is wrong
with the arguments as a whole is found at the end.
-/

set_option autoImplicit false

namespace MiniLang.CommandLine

/-- What is written out for every file. -/
inductive Emit where
  | tokens
  | ast
  | ir
  deriving DecidableEq, Repr

/-- The form that a word asks for. -/
def Emit.ofWord? : String → Option Emit
  | "tokens" => some .tokens
  | "ast" => some .ast
  | "ir" => some .ir
  | _ => none

/-- What the arguments say. -/
structure Options where
  files : List String := []
  /-- What to write; the code if nothing is said. -/
  emit : Option Emit := none
  /-- Whether to run the code instead of writing it. -/
  run : Bool := false
  /-- How many files to compile at a time. -/
  jobs : Option Nat := none
  /-- Whether to leave operators between written-out values to the run. -/
  noFold : Bool := false
  /-- Whether to show the source line under each diagnostic. -/
  snippets : Bool := false
  /-- How often more talk was asked for. -/
  verbosity : Nat := 0
  quiet : Bool := false
  deriving DecidableEq, Repr

/-- What is wrong with arguments. -/
inductive UsageError where
  | unknown (argument : String)
  | repeated (option : String)
  | missingValue (option : String)
  | unexpectedValue (option : String)
  | invalidValue (option value : String)
  | conflict (option other : String)
  | noFiles
  deriving DecidableEq, Repr

/-- What is said about arguments that are wrong. -/
def UsageError.message : UsageError → String
  | unknown argument => "unexpected argument '" ++ argument ++ "' found"
  | repeated option => "the argument '" ++ option ++ "' cannot be used multiple times"
  | missingValue option => "a value is required for '" ++ option ++ "' but none was supplied"
  | unexpectedValue option => "unexpected value for '" ++ option ++ "' found"
  | invalidValue option value => "invalid value '" ++ value ++ "' for '" ++ option ++ "'"
  | conflict option other => "the argument '" ++ option ++ "' cannot be used with '" ++ other ++ "'"
  | noFiles => "no files were given"

/-- What is asked for. -/
inductive Request where
  | compile (options : Options)
  | version
  | help
  | refuse (error : UsageError)
  deriving DecidableEq, Repr

/-- Options that take no value. -/
inductive Flag where
  | run
  | noFold
  | snippets
  | quiet
  | verbose
  | version
  | help
  deriving DecidableEq, Repr

/-- Options that take a value. -/
inductive Setting where
  | emit
  | jobs
  deriving DecidableEq, Repr

/-- The options. -/
inductive Switch where
  | flag (flag : Flag)
  | setting (setting : Setting)
  deriving DecidableEq, Repr

/-- The option with a long name. -/
def Switch.ofName? : String → Option Switch
  | "run" => some (.flag .run)
  | "no-fold" => some (.flag .noFold)
  | "snippets" => some (.flag .snippets)
  | "quiet" => some (.flag .quiet)
  | "verbose" => some (.flag .verbose)
  | "version" => some (.flag .version)
  | "help" => some (.flag .help)
  | "emit" => some (.setting .emit)
  | "jobs" => some (.setting .jobs)
  | _ => none

/-- The option with a short name. -/
def Switch.ofLetter? : Char → Option Switch
  | 'q' => some (.flag .quiet)
  | 'v' => some (.flag .verbose)
  | 'V' => some (.flag .version)
  | 'h' => some (.flag .help)
  | 'j' => some (.setting .jobs)
  | _ => none

/-- The name of an option that takes a value. -/
def Setting.name : Setting → String
  | .emit => "--emit"
  | .jobs => "--jobs"

/-- Reading arguments goes on with what they say so far, or ends with a request. -/
abbrev Reading := Except Request

/-- Ends the reading for something wrong. -/
def refuse {α : Type} (error : UsageError) : Reading α := .error (.refuse error)

/-- Takes note of an option, which may not have been given before. -/
def once (given : Bool) (option : String) (noted : Options) : Reading Options :=
  if given then refuse (.repeated option) else .ok noted

/-- Takes note of an option without a value. -/
def Flag.apply (o : Options) : Flag → Reading Options
  | .run => once o.run "--run" { o with run := true }
  | .noFold => once o.noFold "--no-fold" { o with noFold := true }
  | .snippets => once o.snippets "--snippets" { o with snippets := true }
  | .quiet => once o.quiet "--quiet" { o with quiet := true }
  | .verbose => .ok { o with verbosity := o.verbosity + 1 }
  | .version => .error .version
  | .help => .error .help

/-- The largest count that can be given. -/
def maxCount : Nat := UInt64.size - 1

/-- Reads a count: decimal digits, possibly behind a plus. -/
def count? (text : List Char) : Option Nat :=
  let digits :=
    match text with
    | '+' :: rest => rest
    | _ => text
  let value := Integer.ofDigits digits
  if !digits.isEmpty && digits.all Integer.isDigit && value ≤ maxCount then some value else none

/-- Takes note of an option with a value. -/
def Setting.apply (o : Options) (value : List Char) : Setting → Reading Options
  | .emit =>
    if o.emit.isSome then
      refuse (.repeated "--emit")
    else
      match Emit.ofWord? (String.ofList value) with
      | some form => .ok { o with emit := some form }
      | none => refuse (.invalidValue "--emit" (String.ofList value))
  | .jobs =>
    if o.jobs.isSome then
      refuse (.repeated "--jobs")
    else
      match count? value with
      | some count => .ok { o with jobs := some count }
      | none => refuse (.invalidValue "--jobs" (String.ofList value))

/-- The forms of an argument. -/
inductive Argument where
  /-- All arguments behind it are files. -/
  | separator
  /-- A long option, perhaps with a value behind an equals sign. -/
  | long (name : List Char) (value : Option (List Char))
  /-- Short options. -/
  | short (letters : List Char)
  | file
  deriving DecidableEq, Repr

/-- The form of an argument. A dash alone is a file. -/
def Argument.ofChars : List Char → Argument
  | ['-', '-'] => .separator
  | '-' :: '-' :: rest =>
    match rest.dropWhile (· ≠ '=') with
    | [] => .long rest none
    | _ :: value => .long (rest.takeWhile (· ≠ '=')) (some value)
  | '-' :: letter :: letters => .short (letter :: letters)
  | _ => .file

/-- Takes note of a long option. The option is given back if its value is still to come. -/
def readLong (o : Options) (name : List Char) (value : Option (List Char)) :
    Reading (Options × Option Setting) :=
  let shown := "--" ++ String.ofList name
  match Switch.ofName? (String.ofList name), value with
  | none, _ => refuse (.unknown shown)
  | some (.flag _), some _ => refuse (.unexpectedValue shown)
  | some (.flag flag), none => (flag.apply o).map (·, none)
  | some (.setting setting), some value => (setting.apply o value).map (·, none)
  | some (.setting setting), none => .ok (o, some setting)

/-- Takes note of short options behind one dash. The last one is given back if its value is still to
come. -/
def readShort (o : Options) : List Char → Reading (Options × Option Setting)
  | [] => .ok (o, none)
  | letter :: letters =>
    match Switch.ofLetter? letter with
    | none => refuse (.unknown (String.ofList ['-', letter]))
    | some (.flag flag) =>
      match flag.apply o with
      | .ok o => readShort o letters
      | .error request => .error request
    | some (.setting setting) =>
      match letters with
      | [] => .ok (o, some setting)
      | '=' :: value => (setting.apply o value).map (·, none)
      | value => (setting.apply o value).map (·, none)

/-- Takes note of a file. -/
def readFile (o : Options) (name : String) : Reading Options :=
  if name = "" then refuse (.invalidValue "FILES" name)
  else .ok { o with files := o.files ++ [name] }

/-- Reads arguments that are all files. -/
def readFiles (o : Options) : List String → Reading Options
  | [] => .ok o
  | name :: names =>
    match readFile o name with
    | .ok o => readFiles o names
    | .error request => .error request

/-- Reads arguments. The first may have to be the value of an option. -/
def readAll : Option Setting → Options → List String → Reading Options
  | some setting, _, [] => refuse (.missingValue setting.name)
  | some setting, o, value :: rest =>
    match Argument.ofChars value.toList with
    | .file =>
      match setting.apply o value.toList with
      | .ok o => readAll none o rest
      | .error request => .error request
    | _ => refuse (.missingValue setting.name)
  | none, o, [] => .ok o
  | none, o, argument :: rest =>
    match Argument.ofChars argument.toList with
    | .separator => readFiles o rest
    | .long name value =>
      match readLong o name value with
      | .ok (o, setting) => readAll setting o rest
      | .error request => .error request
    | .short letters =>
      match readShort o letters with
      | .ok (o, setting) => readAll setting o rest
      | .error request => .error request
    | .file =>
      match readFile o argument with
      | .ok o => readAll none o rest
      | .error request => .error request

/-- What arguments ask for. -/
def Request.ofArguments (arguments : List String) : Request :=
  match readAll none {} arguments with
  | .error request => request
  | .ok o =>
    if o.quiet && o.verbosity != 0 then .refuse (.conflict "--quiet" "--verbose")
    else if o.files.isEmpty then .refuse .noFiles
    else .compile o

end MiniLang.CommandLine
