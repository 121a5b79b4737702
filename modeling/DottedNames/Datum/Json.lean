import DottedNames.Datum

/-!
# Data in JSON

A datum is written in JSON over several lines, each level of nesting indented by two blanks. In a
string only the quote mark, the backslash and the control characters below U+0020 are escaped; every
other character stands for itself. An infinite number is written as a word.
-/

namespace DottedNames.Json

/-- How a character is written in a string. -/
def escape (c : Char) : Text :=
  if c = '"' ∨ c = '\\' then ['\\', c]
  else if c = '\n' then ['\\', 'n']
  else if c = '\r' then ['\\', 'r']
  else if c = '\t' then ['\\', 't']
  else if c = Char.ofNat 0x8 then ['\\', 'b']
  else if c = Char.ofNat 0xC then ['\\', 'f']
  else if c.toNat < 0x20 then '\\' :: 'u' :: Text.hexDigits 4 c.toNat
  else [c]

/-- A text as a string. -/
def string (t : Text) : Text := '"' :: (t.flatMap escape ++ ['"'])

/-- A real. -/
def real (x : BinaryNumber) : Text :=
  if x.isInfinite then (if x.negative then ['-'] else []) ++ "Infinity".toList else x.text

/-- The start of a line at a level of nesting. -/
def newline (depth : Nat) : Text := '\n' :: List.replicate (2 * depth) ' '

/-- The written items of a list or record at a level of nesting, between their brackets. -/
def enclosed (opening closing : Char) (depth : Nat) (items : List Text) : Text :=
  if items.isEmpty then [opening, closing]
  else
    opening :: newline (depth + 1) ++ Text.join (',' :: newline (depth + 1)) items ++
      newline depth ++ [closing]

mutual

/-- A datum at a level of nesting. -/
def write (depth : Nat) : Datum → Text
  | .null => "null".toList
  | .bool b => if b then "true".toList else "false".toList
  | .int i => Text.ofInt i
  | .real x => real x
  | .text t => string t
  | .list items => enclosed '[' ']' depth (writeItems (depth + 1) items)
  | .record fields => enclosed '\x7b' '\x7d' depth (writeFields (depth + 1) fields)

/-- The items of a list at a level of nesting. -/
def writeItems (depth : Nat) : List Datum → List Text
  | [] => []
  | d :: ds => write depth d :: writeItems depth ds

/-- The fields of a record at a level of nesting. -/
def writeFields (depth : Nat) : List (Text × Datum) → List Text
  | [] => []
  | (key, d) :: fields =>
    (string key ++ ": ".toList ++ write depth d) :: writeFields depth fields

end

end DottedNames.Json
