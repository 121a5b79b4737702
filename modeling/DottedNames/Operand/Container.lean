import DottedNames.Operand

/-!
# Operands as containers

Some operands contain others: a name, a list and a tuple contain segments or data, a text contains
its characters, and a record its keys. Going through a container yields the list of what it contains
at that moment, so that what happens to the container afterwards does not change the list.

A segment has a length and contains nothing. A text is searched for texts, a record for keys, and
every other container for an item that is equal to the one that is sought.
-/

namespace DottedNames

/-- What a container contains, in order. -/
inductive Items where
  /-- Segments. -/
  | segments (ss : List Segment)
  /-- Data. -/
  | data (ds : List Datum)

/-- The parts of a container one by one. -/
def Items.operands : Items → List Operand
  | .segments ss => ss.map .segment
  | .data ds => ds.map .datum

namespace Operand

/-- The list of what a container contains. -/
def ofItems : Items → Operand
  | .segments ss => .segments ss
  | .data ds => .datum (.list ds)

/-- The number of parts of an operand that has parts. -/
def length : Operand → Except Fault Nat
  | .designator (.name q) => .ok q.length
  | .designator (.segment s) => .ok s.length
  | .segments ss => .ok ss.length
  | .tuple ss => .ok ss.length
  | .datum (.text t) => .ok t.length
  | .datum (.list items) => .ok items.length
  | .datum (.record fields) => .ok fields.length
  | .datum d => .error (.noLength d.kind)

/-- What going through an operand yields: segments or data. Of a name it is the tuple of its
segments at that moment (`Fqn.__iter__`). -/
def iterate : Operand → Except Fault Items
  | .designator (.name q) => .ok (.segments q.segments)
  | .segments ss => .ok (.segments ss)
  | .tuple ss => .ok (.segments ss)
  | .datum (.text t) => .ok (.data (t.map fun c => .text [c]))
  | .datum (.list items) => .ok (.data items)
  | .datum (.record fields) => .ok (.data (fields.map fun f => .text f.1))
  | x => .error (.notIterable x.kind)

/-- Whether one of some segments equals the operand that is sought. -/
def amongSegments (ss : List Segment) (sought : Operand) : Bool :=
  ss.any fun s => (Operand.segment s).same sought

/-- Whether an operand contains the one that is sought. -/
def contains (x sought : Operand) : Except Fault Bool :=
  match x with
  | .designator (.name q) => .ok (amongSegments q.segments sought)
  | .segments ss => .ok (amongSegments ss sought)
  | .tuple ss => .ok (amongSegments ss sought)
  | .datum (.text t) =>
    match sought with
    | .datum (.text u) => .ok (u.occursIn t)
    | y => .error (.textSought y.kind)
  | .datum (.list items) => .ok (items.any fun d => (Operand.datum d).same sought)
  | .datum (.record fields) => do
    let _ ← sought.hashKey
    return fields.any fun f => (Operand.datum (.text f.1)).same sought
  | x => .error (.notSearchable x.kind)

end Operand

end DottedNames
