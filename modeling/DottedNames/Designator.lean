import DottedNames.QualName.Order

/-!
# Designators: segments and qualified names together

A segment and the simple name made of it designate the same thing. They are equal, they have the
same hash, and in a comparison with a qualified name a segment counts as its simple name. Two bare
segments are equal or not, but they are not ordered.
-/

namespace DottedNames

/-- A segment or a qualified name, a `Name` or an `Fqn`. -/
inductive Designator where
  /-- A bare segment. -/
  | segment (s : Segment)
  /-- A qualified name. -/
  | name (q : QualName)
deriving DecidableEq

namespace Designator

/-- The written form. -/
def text : Designator → Text
  | .segment s => s.text
  | .name q => q.text

/-- The qualified name that the designator counts as. -/
def toQualName : Designator → QualName
  | .segment s => .ofSegment s
  | .name q => q

/-- Equality: a segment equals the simple name made of it, and no other name (`Fqn.__eq__`; a
segment leaves the answer to the name). -/
def same : Designator → Designator → Bool
  | .segment s, .segment t => s == t
  | .name p, .name q => p == q
  | .segment s, .name q => q.toSegment? == some s
  | .name q, .segment s => q.toSegment? == some s

/-- Whether an order relation holds between a name and a designator: whether the name precedes what
the designator counts as, and whether the two are equal, decide. -/
def relatedName (r : OrderRelation) (p : QualName) (y : Designator) : Bool :=
  let before := p.precedes y.toQualName
  match r with
  | .lt => before
  | .le => before || (name p).same y
  | .gt => !before && !(name p).same y
  | .ge => !before

/-- Whether an order relation holds. A name tells how it is related to the other side; a bare
segment cannot tell, so the name behind it is asked for the converse. `none` for two bare segments,
which are not ordered. -/
def related? (r : OrderRelation) : Designator → Designator → Option Bool
  | .name p, y => some (relatedName r p y)
  | .segment s, .name q => some (relatedName r.converse q (.segment s))
  | .segment _, .segment _ => none

/-- The hash of a designator over given hashes of a text and of a list of texts: that of the text of
the only segment if there is just one, and that of the texts of all the segments otherwise
(`Fqn.__hash__`, `Name.__hash__`). -/
def hashWith {α : Type} (ofText : Text → α) (ofTexts : List Text → α) : Designator → α
  | .segment s => ofText s.text
  | .name q =>
    match q.toSegment? with
    | some s => ofText s.text
    | none => ofTexts q.texts

/-- The hash that forgets nothing but the type of the designator. -/
def hashKey : Designator → Text ⊕ List Text := hashWith .inl .inr

/-- Whether two designators have the same hash. -/
def sameHash (x y : Designator) : Bool := x.hashKey == y.hashKey

end Designator

end DottedNames
