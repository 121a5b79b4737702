/-!
# Tables of code point ranges

A character property of the Unicode standard is a set of code points that falls into a few hundred
ranges. A table lists those ranges, each by its first and its last code point, in ascending order,
and membership is a search through them.
-/

namespace DottedNames

/-- A set of code points as a list of inclusive ranges. -/
structure RangeTable where
  /-- The first and the last code point of each range, in ascending order. -/
  ranges : List (Nat × Nat)

namespace RangeTable

/-- Whether a code point lies in one of the ranges. -/
def contains (table : RangeTable) (codePoint : Nat) : Bool :=
  table.ranges.any fun (first, last) => first ≤ codePoint && codePoint ≤ last

/-- Membership in a table is membership in one of its ranges. -/
theorem contains_iff {table : RangeTable} {n : Nat} :
    table.contains n = true ↔ ∃ r ∈ table.ranges, r.1 ≤ n ∧ n ≤ r.2 := by
  simp [contains]

end RangeTable

end DottedNames
