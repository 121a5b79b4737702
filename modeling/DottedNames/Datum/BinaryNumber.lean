import DottedNames.Datum.Decimal

/-!
# Binary numbers

A number that is written with a point or an exponent is kept with 53 significant bits. The least
positive one is `2 ^ -1074`, and every other is a multiple of it, so a binary number is a sign and a
number of such units; a number that has no such form is rounded to the nearest one that has, and
half-way to the one whose last bit is zero. Zero has a sign, which shows in its text and nowhere
else. What is rounded to `2 ^ 1024` or more is infinite.

Counting in units makes the comparison with an integer exact: an integer `i` is `i * 2 ^ 1074`
units.

The text of a binary number has the fewest digits that are rounded to it, and of two such texts with
equally many digits the one that is nearer.
-/

namespace DottedNames

/-- A power of two. -/
def twoTo (n : Nat) : Nat := Nat.pow 2 n

/-- A number with 53 significant bits. -/
structure BinaryNumber where
  /-- Whether the number has a minus sign. -/
  negative : Bool
  /-- The absolute value in units of `2 ^ -1074`. -/
  units : Nat
deriving DecidableEq

namespace BinaryNumber

/-- The number of significant bits. -/
def precision : Nat := 53

/-- One is this many units. -/
def unitsOfOne : Nat := twoTo 1074

/-- This many units are infinite. -/
def infinity : Nat := twoTo 2098

/-- Whether the number is infinite. -/
def isInfinite (x : BinaryNumber) : Bool := x.units == infinity

/-- The signed number of units. -/
def scaled (x : BinaryNumber) : Int := if x.negative then -x.units else x.units

/-! ## Rounding -/

/-- The quotient of two naturals, rounded to the nearest natural and half-way to the even one. -/
def roundQuotient (n d : Nat) : Nat :=
  let q := n / d
  let r := n % d
  if 2 * r < d ∨ (2 * r = d ∧ q % 2 = 0) then q else q + 1

/-- The number of units that a quotient of two naturals is rounded to: no more significant bits than
there may be. -/
def roundUnits (n d : Nat) : Nat :=
  let dropped := Nat.log2 (n / d) + 1 - precision
  min infinity (roundQuotient n (d * twoTo dropped) * twoTo dropped)

/-- More places in front of the point than a number has that is not infinite, and more zeros behind
the point than a number has in front of its first digit. -/
def spareExponent : Nat := 350

/-- The number of units that a decimal is rounded to. -/
def unitsOfDecimal (d : Decimal) : Nat :=
  let places : Int := (Text.ofNat d.digits).length + d.exponent
  if d.digits = 0 ∨ places < -spareExponent then 0
  else if spareExponent < places then infinity
  else roundUnits (d.digits * tenTo d.exponent.toNat * unitsOfOne) (tenTo (-d.exponent).toNat)

/-- The binary number that a decimal with a sign is rounded to. -/
def ofDecimal (negative : Bool) (d : Decimal) : BinaryNumber := ⟨negative, unitsOfDecimal d⟩

/-! ## Digits -/

/-- The most digits that are ever needed. -/
def mostDigits : Nat := 17

/-- The number of decimal places before the point of a positive number of units; it is negative if
zeros follow the point. -/
def decimalPlaces (units : Nat) : Int :=
  ((Text.ofNat (units * tenTo spareExponent / unitsOfOne)).length : Int) - spareExponent

/-- The decimal of at most `n` digits that is rounded to a number of units, if there is one. Only
the two decimals next to the number can be, and of the two the nearer one is preferred, and half-way
the one with the even last digit. -/
def ofDigits? (units : Nat) (n : Nat) : Option Decimal :=
  let exponent := decimalPlaces units - n
  let numerator := units * tenTo (-exponent).toNat
  let denominator := unitsOfOne * tenTo exponent.toNat
  let below := numerator / denominator
  let nearest := roundQuotient numerator denominator
  let other := if nearest = below then below + 1 else below
  [nearest, other].findSome? fun digits =>
    let d : Decimal := ⟨digits, exponent⟩
    if unitsOfDecimal d = units then some d else none

/-- The exact value of a number of units: a unit is `5 ^ 1074` times the 1074th place behind the
point. -/
def exactDecimal (units : Nat) : Decimal := ⟨units * Nat.pow 5 1074, -1074⟩

/-- The decimal with the fewest digits that is rounded to a number of units. -/
def shortest (units : Nat) : Decimal :=
  ((List.range mostDigits).findSome? fun n => ofDigits? units (n + 1)).getD (exactDecimal units)

/-- The written form. -/
def text (x : BinaryNumber) : Text :=
  (if x.negative then ['-'] else []) ++
    if x.isInfinite then "inf".toList
    else if x.units = 0 then "0.0".toList
    else (shortest x.units).text

end BinaryNumber

end DottedNames
