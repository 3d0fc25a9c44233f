import MiniLang.Session
import MiniLang.Text.Bytes
import MiniLang.Token.Lexeme

/-!
# Reading tokens

A cursor stands in a source text and counts bytes, lines and columns. Reading from it skips
separators, gives the next token, and moves past it; a character that begins no lexeme is a token
of its own kind. Every token is delivered together with the problem found while it was read, so
that a consumer decides when the problem is recorded. The last token of a text ends the input.
-/

set_option autoImplicit false

namespace MiniLang

/-- A place in a source text: what is still to be read, and how far the place is from the
beginning. -/
structure Cursor where
  rest : List Char
  offset : Nat
  line : Nat
  column : Nat
  deriving DecidableEq, Repr

namespace Cursor

/-- The beginning of a text. -/
def start (source : List Char) : Cursor := ⟨source, 0, 1, 1⟩

/-- Whether nothing is left to be read. -/
def atEnd (c : Cursor) : Bool := c.rest.isEmpty

/-- The line and column after a character, given those before it. -/
def positionAfter (position : Nat × Nat) (c : Char) : Nat × Nat :=
  if c = '\n' then (position.1 + 1, 1) else (position.1, position.2 + 1)

/-- The place after `text`, which has to be what stands at the cursor. -/
def advance (c : Cursor) (text : List Char) : Cursor :=
  let position := text.foldl positionAfter (c.line, c.column)
  ⟨Text.dropBytes c.rest (Text.byteLength text), c.offset + Text.byteLength text,
    position.1, position.2⟩

/-- Where `text` stands if it begins at the cursor. -/
def spanOf (c : Cursor) (text : List Char) : Span :=
  ⟨c.offset, c.offset + Text.byteLength text, c.line, c.column⟩

/-- The token that `text` forms if it begins at the cursor. -/
def token (c : Cursor) (kind : TokenKind) (text : List Char) : Token :=
  ⟨kind, String.ofList text, c.spanOf text⟩

end Cursor

/-- A token on its way to a consumer. -/
structure Delivery where
  token : Token
  /-- The problem found while the token was read, at the token's place. -/
  problem : Option Problem := none
  /-- Whether a cancellation is requested just before the token is handed over. -/
  cancels : Bool := false
  deriving DecidableEq, Repr

namespace Delivery

/-- The diagnostics that come with a delivery: at most one. -/
def diagnostics (d : Delivery) : List Diagnostic :=
  d.problem.toList.map fun problem => .of problem d.token.span

/-- What taking a delivery does to a session. -/
def notify (d : Delivery) (s : Session) : Session :=
  (if d.cancels then s.cancel else s).recordAll d.diagnostics

end Delivery

/-- A reader of tokens: a place in a text, and whether the token that ends the input was given
out. -/
structure Lexer where
  cursor : Cursor
  finished : Bool := false
  deriving DecidableEq, Repr

namespace Lexer

/-- The reader at the beginning of a text. -/
def start (source : List Char) : Lexer := { cursor := .start source }

/-- The next token at a cursor, and the place after it. The number bounds how many separators are
skipped; there are never more of them than characters. -/
def read : Nat → Cursor → Delivery × Cursor
  | 0, c => ({ token := .endAt (c.spanOf []) }, c)
  | fuel + 1, c =>
    match c.rest with
    | [] => ({ token := .endAt (c.spanOf []) }, c)
    | first :: _ =>
      match LexemeClass.firstMatch? c.rest LexemeClass.table with
      | none =>
        ({ token := c.token .unknown [first], problem := some (.illegalCharacter first) },
          c.advance [first])
      | some (cls, lexeme) =>
        match cls.meaning lexeme with
        | none => read fuel (c.advance lexeme)
        | some (kind, problem) =>
          ({ token := c.token kind lexeme, problem := problem }, c.advance lexeme)

/-- The next token, until the one that ends the input was given out. -/
def next (l : Lexer) : Option Delivery × Lexer :=
  if l.finished then
    (none, l)
  else
    let (delivery, cursor) := read (l.cursor.rest.length + 1) l.cursor
    (some delivery, ⟨cursor, delivery.token.kind == .endOfInput⟩)

/-- All tokens from a cursor on, up to the one that ends the input. The number bounds how many
there are; every other token takes at least one character. -/
def readAll : Nat → Cursor → List Delivery
  | 0, _ => []
  | fuel + 1, c =>
    let (delivery, after) := read (fuel + 1) c
    if delivery.token.kind = .endOfInput then [delivery] else delivery :: readAll fuel after

end Lexer

/-- The tokens of a source text, each with the problem found while it was read. -/
def deliveries (source : List Char) : List Delivery :=
  Lexer.readAll (source.length + 1) (.start source)

/-- The deliveries of tokens that were read beforehand and bring no problems along. -/
def deliveriesOf (tokens : List Token) : List Delivery :=
  tokens.map fun token => { token := token }

namespace Delivery

/-- Requests a cancellation just before the delivery with index `n`. -/
def cancelAt : Nat → List Delivery → List Delivery
  | _, [] => []
  | 0, d :: ds => { d with cancels := true } :: ds
  | n + 1, d :: ds => d :: cancelAt n ds

end Delivery

end MiniLang
