import DottedNames.Text

/-!
# Decimal numbers

A positive number that is written with a point or an exponent is, as far as its digits go, a natural
number times a power of ten. Dropping the trailing zeros of the digits gives each value one form.

The text of a decimal is positional while its first digit stands between the fourth place after the
point and the sixteenth before it, and it always has a digit after the point; beyond that range it
has an exponent of at least two digits with its sign.
-/

namespace DottedNames

/-- A power of ten. -/
def tenTo (n : Nat) : Nat := Nat.pow 10 n

/-- The number `digits * 10 ^ exponent`. -/
structure Decimal where
  /-- The digits, read as a natural number. -/
  digits : Nat
  /-- The power of ten. -/
  exponent : Int
deriving DecidableEq

namespace Decimal

/-- The number without its trailing zeros, and how many there were; at most `fuel` of them are
dropped. -/
def dropZeros : Nat → Nat → Nat × Nat
  | 0, n => (n, 0)
  | fuel + 1, n =>
    if n % 10 == 0 then
      let (m, k) := dropZeros fuel (n / 10)
      (m, k + 1)
    else (n, 0)

/-- The form of the same value whose digits do not end in a zero; zero has exponent zero. -/
def normalize (d : Decimal) : Decimal :=
  if d.digits == 0 then ⟨0, 0⟩
  else
    let (m, k) := dropZeros d.digits d.digits
    ⟨m, d.exponent + k⟩

/-- The exponent of the written form: its sign and at least two digits. -/
def exponentText (e : Int) : Text :=
  let digits := Text.ofNat e.natAbs
  (if e < 0 then ['-'] else ['+']) ++ List.replicate (2 - digits.length) '0' ++ digits

/-- The written form of the value. -/
def text (d : Decimal) : Text :=
  let n := d.normalize
  let digits := Text.ofNat n.digits
  -- The number of places before the point.
  let places : Int := digits.length + n.exponent
  if places ≤ -4 ∨ places > 16 then
    digits.take 1 ++ (if digits.length > 1 then '.' :: digits.drop 1 else []) ++
      'e' :: exponentText (places - 1)
  else if places ≤ 0 then '0' :: '.' :: (List.replicate places.natAbs '0' ++ digits)
  else
    let whole := digits ++ List.replicate (places.toNat - digits.length) '0'
    let fraction := whole.drop places.toNat
    whole.take places.toNat ++ '.' :: (if fraction.isEmpty then ['0'] else fraction)

end Decimal

end DottedNames
