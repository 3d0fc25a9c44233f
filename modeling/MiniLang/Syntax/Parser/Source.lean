import MiniLang.Syntax.Parser.Statement

/-!
# Parsing source texts

A source text can be read while it is parsed, token by token, so that what is wrong with a token is
found when the parser gets to it. It can also be read as a whole first.
-/

set_option autoImplicit false

namespace MiniLang

/-- Parses a source text, reading tokens as they are needed. -/
def parseSource (source : List Char) (s : Session) : Parsed := parse (deliveries source) s

/-- Reads all tokens of a source text, then parses them. -/
def parseAfterReading (source : List Char) (s : Session) : Parsed :=
  let tokens := deliveries source
  parse (deliveriesOf (tokens.map Delivery.token))
    (s.recordAll (tokens.flatMap Delivery.diagnostics))

end MiniLang
