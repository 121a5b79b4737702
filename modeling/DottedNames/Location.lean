import DottedNames.Text

/-!
# Lines and columns

A line feed ends a line, and no other character does. The starts of the lines of a text are listed
in ascending order; an offset lies in the last line that starts at it or before it. Lines and
columns are counted from one.
-/

namespace DottedNames

/-- A place in a text as a reader gives it. -/
structure Location where
  /-- The number of the line, from one. -/
  line : Nat
  /-- The number of the column, from one. -/
  column : Nat
deriving DecidableEq

namespace Location

/-- The positions behind the line feeds of a text whose first character has the given position. -/
def startsFrom (position : Nat) : Text → List Nat
  | [] => []
  | c :: cs =>
    if c == '\n' then (position + 1) :: startsFrom (position + 1) cs
    else startsFrom (position + 1) cs

/-- The position of the first character of each line (`_line_starts`). -/
def lineStarts (t : Text) : List Nat := 0 :: startsFrom 0 t

/-- The line starts at an offset or before it. -/
def startsUpTo (starts : List Nat) (offset : Nat) : List Nat := starts.takeWhile (· ≤ offset)

/-- The location of an offset, given the line starts (`_locate`). -/
def ofOffset (starts : List Nat) (offset : Nat) : Location :=
  let reached := startsUpTo starts offset
  ⟨reached.length, offset - reached.getLast?.getD 0 + 1⟩

end Location

end DottedNames
