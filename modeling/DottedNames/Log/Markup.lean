import DottedNames.Text.Blank
import DottedNames.Text.DecimalDigit

/-!
# Markup

Stretches of a text can be given a colour or a style: `<green>` opens a stretch, and `</green>` or
`</>` closes it. Stretches are nested, so a closing tag with a name has to name the stretch that was
opened last.

A tag names a colour, a colour of the background in capitals, a style, or the colour that belongs to
the level of a record. Behind `fg` or `bg` and a blank the colour of the foreground or of the
background may also be given by a number below 256, by three such numbers, or by three or six
hexadecimal digits.

No tag has a brace in it, so that braces can be looked at independently of tags.
-/

namespace DottedNames

/-- A tag. -/
structure Tag where
  /-- Whether the tag closes a stretch. -/
  closing : Bool
  /-- What the tag names. -/
  name : Text
deriving DecidableEq

namespace Tag

/-- The written form. -/
def text (t : Tag) : Text := '<' :: (if t.closing then ['/'] else []) ++ t.name ++ ['>']

/-- The length of the written form. -/
def length (t : Tag) : Nat := t.text.length

/-! ## Reading -/

/-- Whether a character may stand in the name of a tag. -/
def isNameChar (c : Char) : Bool := c ∉ ['<', '>', '\x7b', '\x7d'] && !Text.isBlank c

/-- How many characters at the start of a name say which ground is meant; the last one is blank. -/
def groundLength : Text → Nat
  | 'f' :: 'g' :: c :: _ => if Text.isBlank c then 3 else 0
  | 'b' :: 'g' :: c :: _ => if Text.isBlank c then 3 else 0
  | _ => 0

/-- The name at the start of a text, if a tag ends behind it. -/
def nameAt? (t : Text) : Option Text :=
  let ground := groundLength t
  let name := t.take ground ++ (t.drop ground).takeWhile isNameChar
  if (t.drop name.length).head? = some '>' then some name else none

/-- The tag at the start of a text, if there is one. -/
def at? : Text → Option Tag
  | '<' :: '/' :: rest => (nameAt? rest).map (Tag.mk true)
  | '<' :: rest => (nameAt? rest).map (Tag.mk false)
  | _ => none

end Tag

namespace Markup

/-! ## What tags name -/

/-- The names of the colours, with their short forms. -/
def colourNames : List String :=
  ["k", "black", "e", "blue", "c", "cyan", "g", "green", "m", "magenta", "r", "red", "w", "white",
    "y", "yellow", "lk", "light-black", "le", "light-blue", "lc", "light-cyan", "lg", "light-green",
    "lm", "light-magenta", "lr", "light-red", "lw", "light-white", "ly", "light-yellow"]

/-- The names of the styles, with their short forms. -/
def styleNames : List String :=
  ["b", "bold", "d", "dim", "n", "normal", "i", "italic", "u", "underline", "s", "strike",
    "v", "reverse", "l", "blink", "h", "hide"]

/-- The names of the colour that belongs to the level of a record. -/
def levelNames : List String := ["level", "lvl"]

/-- The colours of the foreground. -/
def foreground : List Text := colourNames.map String.toList

/-- The colours of the background. -/
def background : List Text := foreground.map Text.toUpper

/-- The small form of a letter in a colour of the foreground; the sign for kelvin is a K there. -/
def smallLetter (c : Char) : Char := if c = '\u212a' then 'k' else c.toLower

/-- The capital form of a letter in a colour of the background; an i may lack its dot there. -/
def capitalLetter (c : Char) : Char := if c = '\u0131' then 'I' else c.toUpper

/-- Whether a text is a number below 256. -/
def isByteNumeral (t : Text) : Bool :=
  !t.isEmpty && t.all Text.isDecimalDigit && Text.toNat t < 256

/-- Whether a character is a hexadecimal digit. -/
def isHexDigit (c : Char) : Bool :=
  c.isDigit || ('a' ≤ c && c ≤ 'f') || ('A' ≤ c && c ≤ 'F')

/-- Whether a text gives a colour by numbers. -/
def isColourCode : Text → Bool
  | '#' :: digits => digits.all isHexDigit && (digits.length == 3 || digits.length == 6)
  | t => isByteNumeral t ||
    (let parts := t.splitOn ','
     parts.length == 3 && parts.all isByteNumeral)

/-- Whether a text is the name of a tag that opens a stretch. -/
def isKnown (name : Text) : Bool :=
  ((styleNames ++ levelNames).map String.toList ++ foreground ++ background).contains name ||
    match name with
    | 'f' :: 'g' :: ' ' :: code => foreground.contains (code.map smallLetter) || isColourCode code
    | 'b' :: 'g' :: ' ' :: code => background.contains (code.map capitalLetter) || isColourCode code
    | _ => false

/-! ## Stretches -/

/-- The names of the stretches that are open behind a tag, the innermost one first, given those open
in front of it. -/
def step (opened : List Text) (t : Tag) : Option (List Text) :=
  if t.closing then
    match opened with
    | innermost :: outer => if t.name.isEmpty || t.name == innermost then some outer else none
    | [] => none
  else if isKnown t.name then some (t.name :: opened)
  else none

end Markup

end DottedNames
