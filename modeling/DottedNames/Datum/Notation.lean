import DottedNames.Datum.BinaryNumber

/-!
# Notations of numbers

Besides its shortest text a binary number has texts with a chosen number of digits: with a number of
places behind the point, with a power of ten behind the digits, or in whichever of the two forms
suits its size. Each of them rounds the exact value to the nearest number that can be written, and
half-way to the one whose last digit is even.

The sign is no part of a notation: every function here takes a number of units.
-/

namespace DottedNames.BinaryNumber

/-- Digits with a point in front of the last `places` of them; a point with nothing behind it stands
only where `pointed`. -/
def pointText (pointed : Bool) (places : Nat) (digits : Nat) : Text :=
  let t := Text.padded (places + 1) digits
  let fraction := t.drop (t.length - places)
  t.take (t.length - places) ++ (if pointed || !fraction.isEmpty then '.' :: fraction else [])

/-- The number with `places` digits behind the point. -/
def fixedText (pointed : Bool) (places units : Nat) : Text :=
  pointText pointed places (roundQuotient (units * tenTo places) unitsOfOne)

/-- The number rounded to `places + 1` digits, and the power of ten of the first of them. -/
def leadingDigits (places units : Nat) : Nat × Int :=
  if units = 0 then (0, 0)
  else
    let exponent := decimalPlaces units - 1
    let shift := (places : Int) - exponent
    let digits := roundQuotient (units * tenTo shift.toNat) (unitsOfOne * tenTo (-shift).toNat)
    if digits < tenTo (places + 1) then (digits, exponent) else (digits / 10, exponent + 1)

/-- Digits of which the first has the given power of ten, with that power behind them. -/
def powerText (pointed : Bool) (places digits : Nat) (exponent : Int) : Text :=
  pointText pointed places digits ++ 'e' :: Decimal.exponentText exponent

/-- The number with one digit in front of the point, `places` behind it, and a power of ten. -/
def scientificText (pointed : Bool) (places units : Nat) : Text :=
  let (digits, exponent) := leadingDigits places units
  powerText pointed places digits exponent

/-- Which of the two forms is chosen, and what it keeps. -/
structure GeneralForm where
  /-- Whether zeros at the end are kept. -/
  keepsZeros : Bool
  /-- Whether the form with a point always has a digit behind it. It then has to have a place to
  spare for that digit. -/
  keepsPlace : Bool

/-- The number with `precision` digits: with a power of ten if the first digit stands behind the
fourth place after the point, or too far in front of the point for the digits to reach it. -/
def generalText (form : GeneralForm) (precision units : Nat) : Text :=
  let places := max precision 1 - 1
  let (digits, exponent) := leadingDigits places units
  let dropped := if form.keepsZeros then 0 else min places (Decimal.dropZeros places digits).2
  let digits := digits / tenTo dropped
  let limit := if form.keepsPlace then (places : Int) else places + 1
  if exponent < -4 ∨ limit ≤ exponent then
    powerText form.keepsZeros (places - dropped) digits exponent
  else
    let kept := (places : Int) - exponent - dropped
    if 0 < kept then pointText false kept.toNat digits
    else
      let whole := digits * tenTo (-kept).toNat
      if form.keepsPlace then pointText false 1 (whole * 10)
      else pointText form.keepsZeros 0 whole

/-- The hundredfold of a number of units, rounded to a binary number. -/
def hundredfold (units : Nat) : Nat := roundUnits (units * 100) 1

end DottedNames.BinaryNumber
