import MiniLang.Text.Span

/-!
# Tokens

The words that source texts are made of. A token keeps the text that it was read from and where
that text stands. Ten identifiers are reserved (`keyword?`).
-/

set_option autoImplicit false

namespace MiniLang

/-- The kinds of tokens. -/
inductive TokenKind where
  | endOfInput
  | integer
  | identifier
  /-- Text that forms no token, about which the reader of tokens has complained already. -/
  | unknown
  | openCurly
  | closeCurly
  | openParen
  | closeParen
  | assignment
  | equals
  | not
  | notEquals
  | less
  | lessEquals
  | greater
  | greaterEquals
  | or
  | and
  | semicolon
  | colon
  | comma
  | arrow
  | plus
  | dash
  | slash
  | star
  | percent
  | kwLet
  | kwFn
  | kwIf
  | kwElse
  | kwWhile
  | kwReturn
  | kwTrue
  | kwFalse
  | kwInt
  | kwBool
  deriving DecidableEq, Repr, Inhabited

/-- The coarse kinds of tokens. -/
inductive TokenCategory where
  | identifier
  | integer
  | keyword
  | operator
  | punctuation
  | endOfInput
  | unknown
  deriving DecidableEq, Repr

namespace TokenKind

/-- The name of a kind, as token listings show it. -/
def name : TokenKind → String
  | endOfInput => "EOF"
  | integer => "Integer"
  | identifier => "Identifier"
  | unknown => "Unknown"
  | openCurly => "OpenCurly"
  | closeCurly => "CloseCurly"
  | openParen => "OpenParen"
  | closeParen => "CloseParen"
  | assignment => "Assignment"
  | equals => "Equals"
  | not => "Not"
  | notEquals => "NotEquals"
  | less => "Less"
  | lessEquals => "LessEquals"
  | greater => "Greater"
  | greaterEquals => "GreaterEquals"
  | or => "Or"
  | and => "And"
  | semicolon => "Semicolon"
  | colon => "Colon"
  | comma => "Comma"
  | arrow => "Arrow"
  | plus => "Plus"
  | dash => "Dash"
  | slash => "Slash"
  | star => "Star"
  | percent => "Percent"
  | kwLet => "Let"
  | kwFn => "Fn"
  | kwIf => "If"
  | kwElse => "Else"
  | kwWhile => "While"
  | kwReturn => "Return"
  | kwTrue => "True"
  | kwFalse => "False"
  | kwInt => "Int"
  | kwBool => "Bool"

/-- All kinds of tokens. -/
def all : List TokenKind :=
  [endOfInput, integer, identifier, unknown, openCurly, closeCurly, openParen, closeParen,
   assignment, equals, not, notEquals, less, lessEquals, greater, greaterEquals, or, and,
   semicolon, colon, comma, arrow, plus, dash, slash, star, percent, kwLet, kwFn, kwIf, kwElse,
   kwWhile, kwReturn, kwTrue, kwFalse, kwInt, kwBool]

/-- No kind is left out of the list of all kinds. -/
theorem mem_all (kind : TokenKind) : kind ∈ all := by cases kind <;> decide

/-- The kind of a given name. -/
def ofName? (text : String) : Option TokenKind := all.find? (·.name == text)

/-- The coarse kind of a kind of tokens. -/
def category : TokenKind → TokenCategory
  | endOfInput => .endOfInput
  | integer => .integer
  | identifier => .identifier
  | unknown => .unknown
  | openCurly | closeCurly | openParen | closeParen | semicolon | colon | comma | arrow =>
    .punctuation
  | assignment | equals | not | notEquals | less | lessEquals | greater | greaterEquals | or | and
  | plus | dash | slash | star | percent => .operator
  | kwLet | kwFn | kwIf | kwElse | kwWhile | kwReturn | kwTrue | kwFalse | kwInt | kwBool =>
    .keyword

end TokenKind

/-- The reserved words and their kinds. -/
def keywords : List (String × TokenKind) :=
  [("let", .kwLet), ("fn", .kwFn), ("if", .kwIf), ("else", .kwElse), ("while", .kwWhile),
   ("return", .kwReturn), ("true", .kwTrue), ("false", .kwFalse), ("int", .kwInt),
   ("bool", .kwBool)]

/-- The kind of a reserved word. -/
def keyword? (word : String) : Option TokenKind := keywords.lookup word

/-- A word of a source text: its kind, the text it was read from, and where that stands. -/
structure Token where
  kind : TokenKind
  text : String
  span : Span
  deriving DecidableEq, Repr, Inhabited

namespace Token

/-- The token that ends every text. -/
def endAt (span : Span) : Token := ⟨.endOfInput, "", span⟩

/-- A token as messages show it. -/
def shown (t : Token) : String := if t.kind = .endOfInput then "end of input" else t.text

/-- A token as one line of a listing. -/
def line (t : Token) : String := "token: " ++ t.kind.name ++ " value: " ++ t.text

end Token

end MiniLang
