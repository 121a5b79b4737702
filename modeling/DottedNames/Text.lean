/-!
# Texts

Names, sources, messages and reports are all texts. Positions, columns and lengths count code
points, so a text is the list of its code points: the `n`-th position of a text is the `n`-th
element of the list, and a span is a `drop` followed by a `take`.

Two notions of word character live side by side. The grammar of names is ASCII and uses
`Text.isNameChar`; the scanner must not cut a word of another alphabet in two and looks at
`Text.isWordChar`, which is in the module of the table it needs.
-/

namespace DottedNames

/-- A text is the list of its code points. -/
abbrev Text := List Char

namespace Text

/-- An ASCII letter, an ASCII digit or the underscore: the characters a segment is made of. -/
def isNameChar (c : Char) : Bool := c.isAlphanum || c == '_'

/-- The decimal digits of a natural number, without leading zeros. -/
def ofNat (n : Nat) : Text := Nat.toDigits 10 n

/-- The decimal digits of an integer, after a minus sign when it is negative. -/
def ofInt : Int → Text
  | .ofNat n => ofNat n
  | .negSucc n => '-' :: ofNat (n + 1)

/-- The ASCII letters made small; every other character stands as it is. -/
def toLower (t : Text) : Text := t.map Char.toLower

/-- The ASCII letters made capital; every other character stands as it is. -/
def toUpper (t : Text) : Text := t.map Char.toUpper

/-- The texts of a list with a separator between neighbours. -/
def join (separator : Text) (ts : List Text) : Text := separator.intercalate ts

/-- The text without the characters satisfying `p` at either end. -/
def trimBy (p : Char → Bool) (t : Text) : Text :=
  ((t.dropWhile p).reverse.dropWhile p).reverse

/-- A number with zeros in front, up to the given width. -/
def padded (width n : Nat) : Text :=
  let digits := ofNat n
  List.replicate (width - digits.length) '0' ++ digits

/-- Whether a text occurs in another one. -/
def occursIn (sought : Text) : Text → Bool
  | [] => sought.isEmpty
  | c :: cs => sought.isPrefixOf (c :: cs) || occursIn sought cs

end Text

end DottedNames
