/-!
# Files

Why a file cannot be read, and directories that are kept in memory. A path is followed name by name
from the directory where it starts; a name with something behind it has to be that of a directory.
-/

set_option autoImplicit false

namespace MiniLang.CommandLine

/-- Why a file cannot be read. -/
inductive ReadFailure where
  | notFound
  | notDirectory
  | isDirectory
  | nameTooLong
  /-- The bytes are no text in UTF-8. -/
  | invalidText
  /-- Another reason that the system gives, with its number. -/
  | system (reason : String) (code : Nat)
  deriving DecidableEq, Repr

/-- What is said about a file that cannot be read. -/
def ReadFailure.message : ReadFailure → String
  | notFound => "No such file or directory (os error 2)"
  | notDirectory => "Not a directory (os error 20)"
  | isDirectory => "Is a directory (os error 21)"
  | nameTooLong => "File name too long (os error 36)"
  | invalidText => "stream did not contain valid UTF-8"
  | system reason code => reason ++ " (os error " ++ toString code ++ ")"

/-- The text in bytes. -/
def textOf (bytes : ByteArray) : Except ReadFailure String :=
  match String.fromUTF8? bytes with
  | some text => .ok text
  | none => .error .invalidText

/-- What a name stands for. -/
inductive Entry where
  | file (bytes : ByteArray)
  | directory

/-- A directory with all that is below it: the way to each entry, by names. -/
structure Directory where
  entries : List (List String × Entry) := []

namespace Directory

/-- The parts of a path, without those that stand for the directory itself. -/
def parts (path : String) : List String :=
  ((path.splitOn "/").filter (· ≠ "")).filter (· ≠ ".")

/-- The entry at the end of a way. Directories are there if something below them is. -/
def entry? (d : Directory) (way : List String) : Option Entry :=
  match d.entries.find? (·.1 == way) with
  | some (_, entry) => some entry
  | none => if d.entries.any fun e => way.isPrefixOf e.1 then some .directory else none

/-- Puts a file or directory under a path. -/
def add (d : Directory) (path : String) (entry : Entry) : Directory :=
  ⟨d.entries ++ [(parts path, entry)]⟩

/-- The longest name, in bytes. -/
def maxName : Nat := 255

/-- The longest path, in bytes. -/
def maxPath : Nat := 4095

/-- Follows names from a place, or from outside of the directory if there is none. -/
def follow (d : Directory) : Option (List String) → List String → Except ReadFailure Entry
  | none, [] => .ok .directory
  | some way, [] =>
    match way, d.entry? way with
    | [], _ => .ok .directory
    | _, some entry => .ok entry
    | _, none => .error .notFound
  | none, name :: names =>
    if maxName < name.utf8ByteSize then .error .nameTooLong
    else if name = ".." then d.follow none names
    else .error .notFound
  | some way, name :: names =>
    match way, d.entry? way with
    | _ :: _, some (.file _) => .error .notDirectory
    | _ :: _, none => .error .notFound
    | _, _ =>
      if name = ".." then d.follow (if way.isEmpty then none else some way.dropLast) names
      else if maxName < name.utf8ByteSize then .error .nameTooLong
      else d.follow (some (way ++ [name])) names

/-- Whether a path can only be that of a directory. -/
def needsDirectory (path : String) : Bool :=
  match (path.splitOn "/").getLast? with
  | some last => last = "" || last = "."
  | none => false

/-- Reads the file under a path. -/
def read (d : Directory) (path : String) : Except ReadFailure String :=
  if maxPath < path.utf8ByteSize then
    .error .nameTooLong
  else
    let start := if path.startsWith "/" then none else some []
    match d.follow start (parts path) with
    | .error failure => .error failure
    | .ok .directory => .error .isDirectory
    | .ok (.file bytes) => if needsDirectory path then .error .notDirectory else textOf bytes

end Directory

end MiniLang.CommandLine
