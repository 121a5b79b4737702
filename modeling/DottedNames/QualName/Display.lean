import DottedNames.Operand

/-!
# Displayed names

How a segment, a qualified name or any other operand is displayed to a person: the kind of the
value and its quoted text. A description is a record of everything there is to tell about a
qualified name.
-/

namespace DottedNames

/-- A value of the given kind and text, as it is displayed. -/
def displayed (k : Kind) (t : Text) : Text := k.word ++ '(' :: (t.quoted ++ [')'])

/-- The displayed form of a segment (`Name.__repr__`). -/
def Segment.display (s : Segment) : Text := displayed .segment s.text

namespace QualName

/-- The displayed form of a qualified name (`Fqn.__repr__`). -/
def display (q : QualName) : Text := displayed .name q.text

/-- Everything there is to tell about a qualified name. -/
def describe (q : QualName) : Datum := .record [
  ("repr".toList, .text q.display),
  ("str".toList, .text q.text),
  ("as_string".toList, .text q.text),
  ("len".toList, .int q.length),
  ("parts".toList, .list (q.segments.map fun s => .text s.display)),
  ("iter".toList, .list (q.texts.map .text)),
  ("leaf".toList, .text q.leaf.display),
  ("simple".toList, .bool q.isSimple),
  ("simple_name".toList, (q.toSegment?.map fun s => Datum.text s.display).getD .null),
  ("parent".toList, (q.parent?.map fun p => Datum.text p.display).getD .null)]

end QualName

namespace Operand

/-- An operand with every segment and every name in its displayed form. -/
def display : Operand → Datum
  | .designator (.segment s) => .text s.display
  | .designator (.name q) => .text q.display
  | .segments ss => .list (ss.map fun s => .text s.display)
  | .tuple ss => .list (ss.map fun s => .text s.display)
  | .datum d => d

end Operand

end DottedNames
