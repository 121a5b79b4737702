import DottedNames.Segment
import DottedNames.Text.Quoted

/-!
# The report on a text that is no segment

A text that should spell a segment and does not is reported together with the place where it was
found, when it is a piece of a longer dotted text. The message quotes both texts, so that it is one
line whatever characters they have.
-/

namespace DottedNames

/-- Where a piece was found: the dotted text it belongs to and its position among the pieces. -/
structure Place where
  /-- The whole dotted text. -/
  source : Text
  /-- The number of pieces before the piece. -/
  index : Nat
deriving DecidableEq

/-- A text that spells no segment (`IdentifierValidationError`). -/
structure InvalidIdentifier where
  /-- The offending text. -/
  text : Text
  /-- Where it was found, if it is a piece of a dotted text. -/
  place : Option Place := none
deriving DecidableEq

namespace InvalidIdentifier

/-- A position as a message shows it: its number, or the word for none. -/
def positionText : Option Int → Text
  | some i => Text.ofInt i
  | none => "None".toList

/-- The words on a text that spells no segment (`IdentifierValidationError.__init__`). A position is
told only together with the source that it is a position in. -/
def wording (text : Text) (source : Option Text) (position : Option Int) : Text :=
  match source with
  | none => "Invalid identifier ".toList ++ text.quoted ++ ".".toList
  | some source =>
    "Invalid identifier ".toList ++ text.quoted ++ " at segment ".toList ++ positionText position
      ++ " of ".toList ++ source.quoted ++ ".".toList

/-- The message that identifies the text and its place. -/
def message (e : InvalidIdentifier) : Text :=
  wording e.text (e.place.map Place.source) (e.place.map fun p => (p.index : Int))

end InvalidIdentifier

/-- The segment that a text spells, or the report on the text (`Name.validate`). -/
def Segment.parse (t : Text) : Except InvalidIdentifier Segment :=
  match Segment.ofText? t with
  | some s => .ok s
  | none => .error { text := t }

end DottedNames
