import MiniLang.Text.Visible

/-!
# Quoted characters

Messages show a single character between single quotes. The null character, tab, carriage return,
newline, the quote itself and the backslash have an escape of two characters; any other character
without a picture of its own is shown by its code in lower-case hexadecimal digits.
-/

set_option autoImplicit false

namespace MiniLang.Text

/-- The digit of a number below sixteen. -/
def hexDigit (n : Nat) : Char :=
  if n < 10 then Char.ofNat (0x30 + n) else Char.ofNat (0x61 + (n - 10))

/-- The hexadecimal digits of a number, the most significant one first, in at most `fuel` places
before the last. -/
def hexDigitsFrom : Nat → Nat → List Char
  | 0, n => [hexDigit (n % 16)]
  | fuel + 1, n =>
    if n < 16 then [hexDigit n] else hexDigitsFrom fuel (n / 16) ++ [hexDigit (n % 16)]

/-- The hexadecimal digits of a code point: at most six, without leading zeros. -/
def hexDigits (code : Nat) : List Char := hexDigitsFrom 5 code

/-- What stands between the quotes for a character. -/
def escaped (c : Char) : List Char :=
  if c = '\x00' then ['\\', '0']
  else if c = '\t' then ['\\', 't']
  else if c = '\r' then ['\\', 'r']
  else if c = '\n' then ['\\', 'n']
  else if c = '\'' then ['\\', '\'']
  else if c = '\\' then ['\\', '\\']
  else if isVisible c then [c]
  else ['\\', 'u', '\x7b'] ++ hexDigits c.toNat ++ ['\x7d']

/-- A character between single quotes. -/
def quoted (c : Char) : String := String.ofList (['\''] ++ escaped c ++ ['\''])

end MiniLang.Text
