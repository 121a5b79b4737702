import DottedNames.QualName

/-!
# The order of qualified names

Qualified names are ordered lexicographically by the texts of their segments, and texts are ordered
lexicographically by code point. The order is given by `precedes`; the other three order relations
are read off it and off equality, as `total_ordering` does, where a name is compared with a
designator.
-/

namespace DottedNames

/-- The four order relations. -/
inductive OrderRelation where
  /-- Strictly before. -/
  | lt
  /-- Before or equal. -/
  | le
  /-- Strictly after. -/
  | gt
  /-- After or equal. -/
  | ge
deriving DecidableEq

/-- The sign of an order relation. -/
def OrderRelation.sign : OrderRelation → Text
  | .lt => "<".toList
  | .le => "<=".toList
  | .gt => ">".toList
  | .ge => ">=".toList

/-- The order relation between the same two things in the other order. -/
def OrderRelation.converse : OrderRelation → OrderRelation
  | .lt => .gt
  | .le => .ge
  | .gt => .lt
  | .ge => .le

/-- Whether an order relation holds between two things that compare in the given way. -/
def OrderRelation.holds : OrderRelation → Ordering → Bool
  | .lt, o => o == .lt
  | .le, o => o != .gt
  | .gt, o => o == .gt
  | .ge, o => o != .lt

namespace QualName

/-- Whether a name comes strictly before another in the order of segment lists (`Fqn.__lt__`). -/
def precedes (x y : QualName) : Bool := decide (x.texts < y.texts)

end QualName

end DottedNames
