import DottedNames.Text
import DottedNames.Text.RangeTable

/-!
# Blank characters

Blank characters may stand around the name of a log mode. They are the characters with the Unicode
property of white space, and in addition the four separators U+001C to U+001F. The zero-width
characters U+200B and U+FEFF are not blank.
-/

namespace DottedNames.Text

/-- The code points of the blank characters. -/
def blankTable : RangeTable where
  ranges := [
    (0x9, 0xD), (0x1C, 0x20), (0x85, 0x85), (0xA0, 0xA0), (0x1680, 0x1680), (0x2000, 0x200A),
    (0x2028, 0x2029), (0x202F, 0x202F), (0x205F, 0x205F), (0x3000, 0x3000)]

/-- Whether a character is blank. -/
def isBlank (c : Char) : Bool := blankTable.contains c.toNat

/-- The text without the blank characters at either end. -/
def trim (t : Text) : Text := t.trimBy isBlank

end DottedNames.Text
