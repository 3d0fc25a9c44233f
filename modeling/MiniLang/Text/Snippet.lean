import MiniLang.Text.Line
import MiniLang.Text.Span

/-!
# Source snippets

A snippet shows the source line on which a span starts, under its line number, with carets below
the characters that the span covers on that line.
-/

set_option autoImplicit false

namespace MiniLang.Text

/-- `cs` moved to the right by blanks until it is `width` characters wide. -/
def alignRight (width : Nat) (cs : List Char) : List Char :=
  List.replicate (width - cs.length) ' ' ++ cs

/-- How many blanks stand under the part of a line before byte offset `offset`;
an offset that is no end of a character in the line counts as its beginning. -/
def caretIndent (line : List Char) (offset : Nat) : Nat :=
  match splitAtByte? line offset with
  | some (before, _) => before.length
  | none => 0

/-- How many carets a span gets on a line: one for each character that it covers there, and at least
one. -/
def caretCount (source line : List Char) (offset : Nat) (span : Span) : Nat :=
  let stop := min span.stop (span.start + (byteLength line - offset))
  match sliceBytes? source span.start stop with
  | some covered => max covered.length 1
  | none => 1

/-- The snippet of a span in a source text: the line above a row of carets, both behind a margin
that holds the line number. A span that starts past the end of the text has an empty snippet. -/
def snippet (source : List Char) (span : Span) : List Char :=
  match lineAt? source span.start with
  | none => []
  | some (line, offset) =>
    let number := (toString span.line).toList
    let margin := alignRight (number.length + 2) ['|']
    margin ++ ['\n'] ++
    number ++ " | ".toList ++ line ++ ['\n'] ++
    margin ++ [' '] ++ List.replicate (caretIndent line offset) ' ' ++
    List.replicate (caretCount source line offset span) '^'

end MiniLang.Text
