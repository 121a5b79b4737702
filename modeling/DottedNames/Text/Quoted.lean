import DottedNames.Text.Printable

/-!
# Quoted texts

A message shows a text between quote marks, so that the reader sees where it starts and ends and
which characters it has. The mark is the single quote, unless the text has a single quote and no
double one. A backslash and the mark itself are escaped by a backslash; line feed, carriage return
and tabulator have an escape of one letter; every other character that is not printable is written
by its code point in two, four or eight hexadecimal digits, whichever is the least that suffices.
-/

namespace DottedNames.Text

/-- The single quote. -/
def singleQuote : Char := '\x27'

/-- The quote mark that encloses a text. -/
def quoteMark (t : Text) : Char :=
  if singleQuote ∈ t ∧ '"' ∉ t then '"' else singleQuote

/-- The last `width` hexadecimal digits of a number, with leading zeros. -/
def hexDigits : Nat → Nat → Text
  | 0, _ => []
  | width + 1, n => hexDigits width (n / 16) ++ [Nat.digitChar (n % 16)]

/-- The escape of a character by its code point. -/
def escapeCodePoint (n : Nat) : Text :=
  if n < 0x100 then '\\' :: 'x' :: hexDigits 2 n
  else if n < 0x10000 then '\\' :: 'u' :: hexDigits 4 n
  else '\\' :: 'U' :: hexDigits 8 n

/-- How a character is written inside a quoted text with the given mark. -/
def escape (mark c : Char) : Text :=
  if c = '\\' ∨ c = mark then ['\\', c]
  else if c = '\n' then ['\\', 'n']
  else if c = '\r' then ['\\', 'r']
  else if c = '\t' then ['\\', 't']
  else if isPrintable c then [c]
  else escapeCodePoint c.toNat

/-- A text between quote marks, with its special characters escaped. -/
def quoted (t : Text) : Text :=
  quoteMark t :: (t.flatMap (escape (quoteMark t)) ++ [quoteMark t])

/-- A text in which every character that is not in ASCII is escaped. -/
def asciiOnly (t : Text) : Text :=
  t.flatMap fun c => if c.toNat < 0x80 then [c] else escapeCodePoint c.toNat

end DottedNames.Text
