import MiniLang.Syntax.Stmt
import MiniLang.Token.Lexer

/-!
# Parsers

A parser takes deliveries of tokens one by one and looks at one token ahead. Taking a token records
what came with it in the session. At the end of the input the parser stays where it is, whether the
deliveries end with such a token or simply run out.

Parsing actions may fail with a syntax error; the state after a failure is kept, so that recovery
starts where the failure was seen. `remaining` counts the tokens that are left, and every loop of
the parser is bounded by it.
-/

set_option autoImplicit false

namespace MiniLang

/-- A problem with the syntax on its way to the statement that it spoils. -/
structure SyntaxError where
  problem : Problem
  span : Span
  /-- Whether somebody has complained already; a silent error is not recorded. -/
  silent : Bool := false
  deriving DecidableEq, Repr

namespace SyntaxError

/-- Another token stands where `expected` has to; about unknown tokens there is a complaint
already. -/
def unexpected (expected : String) (found : Token) : SyntaxError :=
  ⟨.unexpectedToken expected found.shown, found.span, found.kind == .unknown⟩

/-- A syntax error as one line. -/
def text (e : SyntaxError) : String := e.problem.message ++ " at " ++ e.span.text

end SyntaxError

/-- The state of a parser. -/
structure Parser where
  /-- What is still to come after the current token. -/
  upcoming : List Delivery
  /-- The token that is looked at. -/
  current : Token
  /-- Where the token taken last stands. -/
  previousSpan : Span := .origin
  /-- How many tokens were taken. -/
  consumed : Nat := 0
  session : Session
  /-- The number of the next node. -/
  nextId : NodeId := 0
  /-- How many blocks are open. -/
  blockDepth : Nat := 0
  /-- Whether the end of the input was found inside something open before. -/
  reportedEnd : Bool := false

/-- Actions of a parser that give a value or fail, and move the parser in either case. -/
abbrev Parse := EStateM SyntaxError Parser

namespace Parser

/-- The parser that looks at the first of the deliveries. -/
def start (tokens : List Delivery) (s : Session) : Parser :=
  match tokens with
  | [] => { upcoming := [], current := .endAt .origin, session := s }
  | d :: rest => { upcoming := rest, current := d.token, session := d.notify s }

/-- Whether the current token ends the input. -/
def atEnd (p : Parser) : Bool := p.current.kind == .endOfInput

/-- How many tokens are left before the end of the input, the current one included, at most. -/
def remaining (p : Parser) : Nat := if p.atEnd then 0 else p.upcoming.length + 1

/-- The parser after it has taken the current token; it does not move at the end of the input. -/
def advance (p : Parser) : Parser :=
  if p.atEnd then
    p
  else
    match p.upcoming with
    | [] =>
      { p with
        current := .endAt p.current.span.endOf
        previousSpan := p.current.span
        consumed := p.consumed + 1 }
    | d :: rest =>
      { p with
        upcoming := rest
        current := d.token
        session := d.notify p.session
        previousSpan := p.current.span
        consumed := p.consumed + 1 }

/-- Records a syntax error unless it is silent. -/
def report (p : Parser) (e : SyntaxError) : Parser :=
  if e.silent then p else { p with session := p.session.report e.problem e.span }

/-- The error about something that `opening` began and the end of the input cut off. Only the first
one is not silent. -/
def unterminated (p : Parser) (construct : String) (opening : Token) : SyntaxError × Parser :=
  (⟨.unterminated construct, opening.span, p.reportedEnd⟩, { p with reportedEnd := true })

/-- Skips tokens until one may go on with another statement: just after a semicolon, before a brace
that closes the current block, just after a brace that closes one opened on the way, or at the end.
`depth` counts the braces opened on the way, `fuel` bounds the number of tokens. -/
def synchronizeFrom : Nat → Nat → Parser → Parser
  | 0, _, p => p
  | fuel + 1, depth, p =>
    match p.current.kind with
    | .endOfInput => p
    | .semicolon => if depth = 0 then p.advance else synchronizeFrom fuel depth p.advance
    | .openCurly => synchronizeFrom fuel (depth + 1) p.advance
    | .closeCurly =>
      match depth with
      | 0 => p
      | 1 => p.advance
      | depth + 2 => synchronizeFrom fuel (depth + 1) p.advance
    | _ => synchronizeFrom fuel depth p.advance

/-- Skips the rest of a statement that could not be read. -/
def synchronize (p : Parser) : Parser := p.synchronizeFrom (p.remaining + 1) 0

/-- Taking a token leaves fewer, except at the end. -/
theorem remaining_advance_lt {p : Parser} (h : p.atEnd = false) :
    p.advance.remaining < p.remaining := by
  unfold advance remaining
  rw [h]
  cases p.upcoming with
  | nil => simp [atEnd, Token.endAt]
  | cons d rest =>
    simp only [Bool.false_eq_true, ↓reduceIte, List.length_cons]
    split <;> omega

/-- Taking a token never leaves more. -/
theorem remaining_advance_le (p : Parser) : p.advance.remaining ≤ p.remaining := by
  cases h : p.atEnd with
  | true => simp [advance, h]
  | false => exact Nat.le_of_lt (remaining_advance_lt h)

end Parser

namespace Parse

/-- Takes the current token. -/
def advance : Parse Token := fun p => .ok p.current p.advance

/-- The kind of the current token. -/
def currentKind : Parse TokenKind := fun p => .ok p.current.kind p

/-- A number for a new node. -/
def freshId : Parse NodeId := fun p => .ok p.nextId { p with nextId := p.nextId + 1 }

/-- Takes a token of the given kind, which messages call `expected`. -/
def expect (kind : TokenKind) (expected : String) : Parse Token := fun p =>
  if p.current.kind = kind then .ok p.current p.advance
  else .error (.unexpected expected p.current) p

/-- Fails because the end of the input cuts off what `opening` began. -/
def failUnterminated {α : Type} (construct : String) (opening : Token) : Parse α := fun p =>
  let (error, q) := p.unterminated construct opening
  .error error q

/-- Takes the token that closes what `opening` began. -/
def expectClosing (kind : TokenKind) (expected construct : String) (opening : Token) :
    Parse Token := fun p =>
  if p.atEnd then failUnterminated construct opening p else expect kind expected p

/-- Runs an action that may use as many rounds as tokens are left, and one more. -/
def bounded {α : Type} (action : Nat → Parse α) : Parse α := fun p => action (p.remaining + 1) p

end Parse

end MiniLang
