import MiniLang.CommandLine.Report

/-!
# The program

Compiles the files that the command line names.
-/

set_option autoImplicit false

namespace MiniLang.CommandLine

/-- Why the system could not read a file. -/
def readFailure : IO.Error → ReadFailure
  | .noFileOrDirectory _ _ _ => .notFound
  | .inappropriateType _ 20 _ => .notDirectory
  | .inappropriateType _ _ _ => .isDirectory
  | .permissionDenied _ code reason => .system reason code.toNat
  | e => .system (toString e) 0

/-- Reads a file. -/
def readFileText (path : String) : IO (Except ReadFailure String) := do
  try
    return textOf (← IO.FS.readBinFile path)
  catch e =>
    return .error (readFailure e)

end MiniLang.CommandLine

open MiniLang.CommandLine in
/-- Compiles the files that the arguments name. -/
def main (arguments : List String) : IO UInt32 := do
  let result ← answer readFileText arguments
  (← IO.getStdout).putStr result.output
  (← IO.getStderr).putStr result.errors
  return result.code.toUInt32
