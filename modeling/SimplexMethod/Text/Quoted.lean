import SimplexMethod.Text.Extender
import SimplexMethod.Text.Glyphless
import SimplexMethod.Text.Ignorable

/-!
# Quoted texts

A text in double quotes in which every character can be told apart: quotes and backslashes are
escaped, four control characters have an escape of their own, and any other character that would
not show, or would merge with the one before it, is written by its code point in hexadecimal.
-/

namespace SimplexMethod.Text

/-- A digit below sixteen in lower-case hexadecimal. -/
def hexDigit (digit : Nat) : Char :=
  Char.ofNat (if digit < 10 then '0'.toNat + digit else 'a'.toNat + (digit - 10))

/-- A number in hexadecimal without leading zeros. -/
def hexadecimal (number : Nat) : List Char :=
  if number < 16 then [hexDigit number]
  else hexadecimal (number / 16) ++ [hexDigit (number % 16)]
termination_by number

/-- Whether a character cannot be shown by itself: it has no glyph, is not displayed, or merges with
the character before it. -/
def isHidden (c : Char) : Bool := isGlyphless c || isIgnorable c || isExtender c

/-- A character as it stands in a quoted text. -/
def escape (c : Char) : List Char :=
  if c = '\x00' then ['\\', '0']
  else if c = '\t' then ['\\', 't']
  else if c = '\r' then ['\\', 'r']
  else if c = '\n' then ['\\', 'n']
  else if c = '"' ∨ c = '\\' then ['\\', c]
  else if isHidden c then ['\\', 'u', '\x7b'] ++ hexadecimal c.toNat ++ ['\x7d']
  else [c]

/-- A text in double quotes, its characters escaped where needed. -/
def quoted (text : String) : String :=
  String.ofList (['"'] ++ text.toList.flatMap escape ++ ['"'])

end SimplexMethod.Text
