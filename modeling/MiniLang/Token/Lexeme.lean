import MiniLang.Diagnostic.Problem
import MiniLang.Integer
import MiniLang.Text.Blank
import MiniLang.Token.Basic

/-!
# Lexemes

Source texts are cut into lexemes of a few classes: names, numbers, blanks, comments and fixed
signs. The classes are tried in the order of a table, in which every sign comes before those that
begin it, and the first class that fits wins. A lexeme is never empty, and it stands at the
beginning of the text.
-/

set_option autoImplicit false

namespace MiniLang

/-- The classes of lexemes. -/
inductive LexemeClass where
  /-- A letter or underscore, then letters, digits and underscores, all of them ASCII. -/
  | name
  /-- Decimal digits. -/
  | number
  /-- White space. -/
  | blank
  /-- The given sign and all that follows it on its line. -/
  | comment (opening : List Char)
  /-- The given sign. -/
  | sign (text : List Char) (kind : TokenKind)
  deriving DecidableEq, Repr

namespace LexemeClass

/-- Whether a name can begin with the character. -/
def isNameStart (c : Char) : Bool := ('a' ≤ c && c ≤ 'z') || ('A' ≤ c && c ≤ 'Z') || c == '_'

/-- Whether a name can go on with the character. -/
def isNamePart (c : Char) : Bool := isNameStart c || Integer.isDigit c

/-- The longest beginning of a text all of whose characters pass a test, unless it is empty. -/
def run? (test : Char → Bool) (cs : List Char) : Option (List Char) :=
  match cs.takeWhile test with
  | [] => none
  | lexeme => some lexeme

/-- The longest beginning of a text that is a lexeme of the class. -/
def take? (cs : List Char) : LexemeClass → Option (List Char)
  | name =>
    match cs with
    | [] => none
    | c :: rest => if isNameStart c then some (c :: rest.takeWhile isNamePart) else none
  | number => run? Integer.isDigit cs
  | blank => run? Text.isBlank cs
  | comment opening =>
    (opening.isPrefixOf? cs).map fun rest => opening ++ rest.takeWhile (· ≠ '\n')
  | sign text _ => (text.isPrefixOf? cs).map fun _ => text

/-- The classes in the order in which they are tried. -/
def table : List LexemeClass :=
  [name, number, blank, comment ['/', '/'], comment ['$'],
   sign ['=', '='] .equals, sign ['!', '='] .notEquals, sign ['<', '='] .lessEquals,
   sign ['>', '='] .greaterEquals, sign ['&', '&'] .and, sign ['|', '|'] .or,
   sign ['-', '>'] .arrow, sign ['='] .assignment, sign ['!'] .not, sign ['<'] .less,
   sign ['>'] .greater, sign ['+'] .plus, sign ['-'] .dash, sign ['*'] .star, sign ['/'] .slash,
   sign ['%'] .percent, sign ['\x7b'] .openCurly, sign ['\x7d'] .closeCurly,
   sign ['('] .openParen, sign [')'] .closeParen, sign [','] .comma, sign [';'] .semicolon,
   sign [':'] .colon]

/-- The first class of the given ones that has a lexeme at the beginning of a text, and that
lexeme. -/
def firstMatch? (cs : List Char) : List LexemeClass → Option (LexemeClass × List Char)
  | [] => none
  | cls :: rest =>
    match cls.take? cs with
    | some lexeme => some (cls, lexeme)
    | none => firstMatch? cs rest

/-- What a lexeme becomes: nothing if it separates others, else a kind of token and perhaps a
problem. -/
def meaning (lexeme : List Char) : LexemeClass → Option (TokenKind × Option Problem)
  | name => some ((keyword? (String.ofList lexeme)).getD .identifier, none)
  | number =>
    if (Integer.parse? lexeme).isSome then
      some (.integer, none)
    else
      some (.unknown, some (.integerOverflow (String.ofList lexeme)))
  | blank | comment _ => none
  | sign _ kind => some (kind, none)

/-- A run is not empty, stands at the beginning, and is as long as the test allows. -/
theorem run?_eq_some {test : Char → Bool} {cs lexeme : List Char}
    (h : run? test cs = some lexeme) :
    lexeme ≠ [] ∧ lexeme ++ cs.dropWhile test = cs := by
  unfold run? at h
  split at h
  next => simp at h
  next nonempty =>
    obtain rfl := Option.some.inj h
    exact ⟨nonempty, List.takeWhile_append_dropWhile ..⟩

end LexemeClass

end MiniLang
