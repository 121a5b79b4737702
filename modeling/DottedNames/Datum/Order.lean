import DottedNames.Fault

/-!
# The order of data

Numbers are ordered by value, texts by code point, and lists lexicographically: the first two items
that differ decide, and of two lists of which one starts with the other the shorter one comes first.
Nothing else is ordered. A comparison of lists is refused where the deciding items are not ordered.

Hashes of numbers agree on equal numbers, whatever their kinds: a number is hashed by its remainder
modulo the prime `2 ^ 61 - 1`, with its sign, and the hash `-1` is replaced by `-2`. An infinite
number has a hash of its own, and the empty text has the hash of zero.
-/

namespace DottedNames

/-- How two texts compare. -/
def Text.order (s t : Text) : Ordering := if s < t then .lt else if s = t then .eq else .gt

/-- Whether an order relation holds between two lists, given equality of their items and the
relation between items that differ. -/
def relatedLists {α β : Type} (r : OrderRelation) (same : α → β → Bool)
    (related : α → β → Except Fault Bool) : List α → List β → Except Fault Bool
  | x :: xs, y :: ys => if same x y then relatedLists r same related xs ys else related x y
  | xs, ys => .ok (r.holds (compare xs.length ys.length))

namespace Datum

/-! ## Order -/

/-- Whether an order relation holds between two data that are no lists. -/
def relatedScalars (r : OrderRelation) (x y : Datum) : Except Fault Bool :=
  match x, y with
  | .text s, .text t => .ok (r.holds (s.order t))
  | x, y =>
    match x.units?, y.units? with
    | some m, some n => .ok (r.holds (compare m n))
    | _, _ => .error (.unordered r x.kind y.kind)

mutual

/-- Whether an order relation holds between two data. -/
def related (r : OrderRelation) : Datum → Datum → Except Fault Bool
  | .list xs, .list ys => relatedItems r xs ys
  | x, y => relatedScalars r x y

/-- Whether an order relation holds between two lists of data. -/
def relatedItems (r : OrderRelation) : List Datum → List Datum → Except Fault Bool
  | x :: xs, y :: ys => if same x y then relatedItems r xs ys else related r x y
  | xs, ys => .ok (r.holds (compare xs.length ys.length))

end

/-! ## Hashes -/

/-- The prime that numbers are hashed by. -/
def hashPrime : Nat := twoTo 61 - 1

/-- The hash of a number in the units of binary numbers. A unit is `2 ^ -1074`, which modulo the
prime is `2 ^ 24`. -/
def hashOfUnits (units : Int) : Int :=
  let size :=
    if units.natAbs = BinaryNumber.infinity then 314159 else units.natAbs * twoTo 24 % hashPrime
  let h := units.sign * size
  if h = -1 then -2 else h

end Datum

/-- The hash of an operand, as far as different operands can be told to have different ones. -/
inductive HashKey where
  /-- The hash of the absent value. -/
  | null
  /-- The hash of a number, or of the empty text. -/
  | number (h : Int)
  /-- The hash of a text. -/
  | text (t : Text)
  /-- The hash of a list of texts. -/
  | texts (ts : List Text)
deriving DecidableEq

/-- The hash of a datum; lists and records have none. -/
def Datum.hashKey (d : Datum) : Except Fault HashKey :=
  match d with
  | .null => .ok .null
  | .text [] => .ok (.number 0)
  | .text t => .ok (.text t)
  | d =>
    match d.units? with
    | some units => .ok (.number (hashOfUnits units))
    | none => .error (.unhashable d.kind)

end DottedNames
