import DottedNames.Fault
import DottedNames.Pattern.Search

/-!
# The recognition grammar

The patterns of names as they stand in running text, of which `fqn_pattern` yields the last one:

* a segment is a letter followed by any number of letters, digits and underscores;
* a name is a segment, or an underscore that does not run into further word characters;
* a dotted name is any number of segments, each with its dot, and then a name.

A match starts at a given place and takes the longest prefix that has the shape, so that in
`foo.Bar(x)` the match at the start is `foo.Bar`.
-/

namespace DottedNames

namespace Grammar

/-- An ASCII letter. -/
def letter : Pattern := .oneOf [.range 'a' 'z', .range 'A' 'Z']

/-- An ASCII letter, an ASCII digit or the underscore. -/
def nameChar : Pattern :=
  .oneOf [.single '_', .range 'a' 'z', .range 'A' 'Z', .range '0' '9']

/-- A letter followed by name characters (`SEGMENT_GRAMMAR`). -/
def segment : Pattern := .seq letter (.star nameChar)

/-- A segment or a lone underscore (`NAME_GRAMMAR`). -/
def name : Pattern := .alt segment (.seq (.char '_') .boundary)

/-- Segments with their dots, and then a name (`FQN_GRAMMAR`). -/
def dottedName : Pattern := .seq (.star (.seq segment (.char '.'))) name

end Grammar

/-! ## Recognition -/

/-- The dotted name that starts at a position of a text, if there is one there. -/
def recognizeAt? (t : Text) (pos : Int) : Option Text :=
  (Grammar.dottedName.matchSpan? t pos t.length).map (·.slice t)

/-- The least integer that is too large for a position: it does not fit into 64 bits with a sign. -/
def positionBound : Int := 0x8000000000000000

/-- The integer that a datum gives for a position. -/
def Datum.toPosition : Datum → Except Fault Int
  | .bool b => .ok b.toInt
  | .int i => if -positionBound ≤ i ∧ i < positionBound then .ok i else .error .indexTooLarge
  | d => .error (.notAnIndex d.kind)

/-- A text and the window of it that data give; without a second position the window ends where the
text does. The positions are looked at first, one after the other; they have to be integers of 64
bits, and what they are positions in has to be a text. -/
def Datum.toWindow (text pos : Datum) (endpos : Option Datum) :
    Except Fault (Text × Int × Int) := do
  let start ← pos.toPosition
  let stop ← endpos.mapM Datum.toPosition
  match text with
  | .text t => return (t, start, stop.getD t.length)
  | d => throw (.notMatchable d.kind)

/-- The dotted name that starts at a position of a text (`recognize`). -/
def recognize (text position : Datum) : Except Fault (Option Text) := do
  let (t, pos, _) ← text.toWindow position none
  return recognizeAt? t pos

end DottedNames
