import DottedNames.Datum.Order

/-!
# Operands

What the operations on names are applied to: a segment or a qualified name, the segments of a name
as a list or as a tuple, or some other datum. A tuple of segments cannot change and so has a hash; a
list has none, and a tuple and a list are never equal.

Equality answers for any two operands; an order relation answers for two designators of which one at
least is a qualified name, and apart from designators where `Datum.related` answers, tuples of
segments being compared as lists are.
-/

namespace DottedNames

/-- Anything that an operation on names may be applied to. -/
inductive Operand where
  /-- A segment or a qualified name. -/
  | designator (d : Designator)
  /-- A list of segments. -/
  | segments (ss : List Segment)
  /-- A tuple of segments. -/
  | tuple (ss : List Segment)
  /-- Any other value. -/
  | datum (d : Datum)

namespace Operand

/-- A segment as an operand. -/
abbrev segment (s : Segment) : Operand := .designator (.segment s)

/-- A qualified name as an operand. -/
abbrev name (q : QualName) : Operand := .designator (.name q)

/-- The kind of an operand. -/
def kind : Operand → Kind
  | .designator (.segment _) => .segment
  | .designator (.name _) => .name
  | .segments _ => .list
  | .tuple _ => .tuple
  | .datum d => d.kind

/-! ## Reading -/

/-- The segment that an operand spells (`Name.validate`). -/
def readSegment : Operand → Except Fault Segment
  | .datum (.text t) => (Segment.parse t).mapError .invalidIdentifier
  | x => .error (.textExpected .segment x.kind)

/-- The qualified name that an operand spells (`Fqn.new`). -/
def readName : Operand → Except Fault QualName
  | .datum (.text t) => (QualName.parse t).mapError .invalidIdentifier
  | x => .error (.textExpected .name x.kind)

/-- The segment that an operand spells, if it spells one (`Name.try_validate`). -/
def readSegment? : Operand → Option Segment
  | .datum (.text t) => Segment.ofText? t
  | _ => none

/-- The qualified name that an operand spells, if it spells one (`Fqn.try_new`). -/
def readName? : Operand → Option QualName
  | .datum (.text t) => QualName.parse? t
  | _ => none

/-- The operand itself, if it is a segment (`_require_name`). -/
def asSegment : Operand → Except Fault Segment
  | .designator (.segment s) => .ok s
  | x => .error (.segmentExpected x.kind)

/-- The operand itself, if it is a qualified name and so has a feature that only names have. -/
def asName (x : Operand) (feature : String) : Except Fault QualName :=
  match x with
  | .designator (.name q) => .ok q
  | x => .error (.noAttribute x.kind feature.toList)

/-- A copy of an operand of a kind that has copies: of a name, a list or a record. -/
def copy : Operand → Except Fault Operand
  | .designator (.name q) => .ok (.name q)
  | .segments ss => .ok (.segments ss)
  | .datum (.list items) => .ok (.datum (.list items))
  | .datum (.record fields) => .ok (.datum (.record fields))
  | x => .error (.noAttribute x.kind "copy".toList)

/-- A segment as an operand, or nothing. -/
def ofSegment? : Option Segment → Operand
  | some s => .segment s
  | none => .datum .null

/-- A qualified name as an operand, or nothing. -/
def ofName? : Option QualName → Operand
  | some q => .name q
  | none => .datum .null

/-! ## Comparison -/

/-- Equality of operands. -/
def same : Operand → Operand → Bool
  | .designator x, .designator y => x.same y
  | .segments ss, .segments ts => ss == ts
  | .tuple ss, .tuple ts => ss == ts
  | .segments ss, .datum (.list items) => ss.isEmpty && items.isEmpty
  | .datum (.list items), .segments ss => ss.isEmpty && items.isEmpty
  | .datum x, .datum y => x.same y
  | _, _ => false

/-- Whether an order relation holds between two lists of segments; two segments that differ are not
ordered. -/
def relatedSegments (r : OrderRelation) (ss ts : List Segment) : Except Fault Bool :=
  relatedLists r (· == ·) (fun _ _ => .error (.unordered r .segment .segment)) ss ts

/-- Whether an order relation holds between two operands. -/
def related (r : OrderRelation) (x y : Operand) : Except Fault Bool :=
  let refused := Except.error (.unordered r x.kind y.kind)
  match x, y with
  | .designator d, .designator e =>
    match d.related? r e with
    | some b => .ok b
    | none => refused
  | .segments ss, .segments ts => relatedSegments r ss ts
  | .tuple ss, .tuple ts => relatedSegments r ss ts
  | .segments ss, .datum (.list items) =>
    relatedLists r (fun _ _ => false) (fun _ d => .error (.unordered r .segment d.kind)) ss items
  | .datum (.list items), .segments ss =>
    relatedLists r (fun _ _ => false) (fun d _ => .error (.unordered r d.kind .segment)) items ss
  | .datum d, .datum e => d.related r e
  | _, _ => refused

/-- The hash of an operand. A segment has the hash of its text, and a tuple that of a name of the
same segments, as far as such a name has not the hash of its only segment. -/
def hashKey : Operand → Except Fault HashKey
  | .designator d => .ok (d.hashWith .text .texts)
  | .tuple ss => .ok (.texts (ss.map Segment.text))
  | .segments _ => .error (.unhashable .list)
  | .datum d => d.hashKey

/-- Whether two designators have the same hash; `none` if one of the operands is no designator. -/
def sameHash? : Operand → Operand → Option Bool
  | .designator x, .designator y => some (x.sameHash y)
  | _, _ => none

/-- Whether two operands have the same hash. An operand without a hash is refused, the first one
first. -/
def sameHash (x y : Operand) : Except Fault Bool := do
  let h ← x.hashKey
  let k ← y.hashKey
  return h == k

end Operand

end DottedNames
