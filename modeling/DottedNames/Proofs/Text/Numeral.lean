import DottedNames.Proofs.Text.Stretch
import DottedNames.Text.Quoted
import Mathlib.Algebra.Group.Nat.Defs

/-!
# Reading numerals

The decimal digits of a number are read back as the number, up to the first character that is no
digit, and the last hexadecimal digits of a number as its remainder. Both readers undo the printers
of `Text`.
-/

namespace DottedNames.Text

variable {t : Text}

/-! ## Decimal digits -/

/-- The natural number that a text starts with, and what follows it. -/
def readNat? (t : Text) : Option (Nat × Text) :=
  let digits := t.takeWhile Char.isDigit
  if digits.isEmpty then none
  else some (Nat.ofDigitChars 10 digits 0, t.drop digits.length)

/-- The integer that a text starts with, and what follows it. -/
def readInt? : Text → Option (Int × Text)
  | '-' :: t => (readNat? t).map fun (n, rest) => (-(n : Int), rest)
  | t => (readNat? t).map fun (n, rest) => ((n : Int), rest)

/-- No digit comes next, so a number in front of the text ends there. -/
def EndsNumber (t : Text) : Prop := ∀ c ∈ t.head?, c.isDigit = false

@[simp] theorem endsNumber_cons {c : Char} : EndsNumber (c :: t) ↔ c.isDigit = false := by
  simp [EndsNumber]

theorem isDigit_of_mem_ofNat {n : Nat} {c : Char} (h : c ∈ ofNat n) : c.isDigit = true :=
  Nat.isDigit_of_mem_toDigits (by decide) (by decide) h

theorem ofNat_ne_nil (n : Nat) : ofNat n ≠ [] := Nat.toDigits_ne_nil

/-- The digits of a number are read as the number. -/
theorem readNat?_ofNat_append (n : Nat) (h : EndsNumber t) :
    readNat? (ofNat n ++ t) = some (n, t) := by
  have hdigits : (ofNat n ++ t).takeWhile Char.isDigit = ofNat n :=
    takeWhile_append_eq (fun c => isDigit_of_mem_ofNat) h
  have hvalue : Nat.ofDigitChars 10 (ofNat n) 0 = n :=
    Nat.ofDigitChars_toDigits (by decide) (by decide)
  simp only [readNat?, hdigits, List.isEmpty_iff, ofNat_ne_nil, if_false, List.drop_left, hvalue]

theorem readNat?_cons_of_not_isDigit {c : Char} (h : c.isDigit = false) :
    readNat? (c :: t) = none := by
  simp [readNat?, h]

/-- An integer in front of what ends it is read as the integer. -/
theorem readInt?_ofInt_append (i : Int) (h : EndsNumber t) :
    readInt? (ofInt i ++ t) = some (i, t) := by
  cases i with
  | negSucc n =>
    show (readNat? (ofNat (n + 1) ++ t)).map _ = _
    rw [readNat?_ofNat_append (n + 1) h]
    rfl
  | ofNat n =>
    have hread := readNat?_ofNat_append n h
    obtain ⟨c, digits, hcons⟩ := List.exists_cons_of_ne_nil (ofNat_ne_nil n)
    have hc : c ≠ '-' := by
      rintro rfl
      exact absurd (isDigit_of_mem_ofNat (hcons ▸ List.mem_cons_self)) (by decide)
    show readInt? (ofNat n ++ t) = _
    rw [hcons, List.cons_append] at hread ⊢
    rw [readInt?.eq_2 _ fun _ heq => hc (List.cons.inj heq).1, hread]
    rfl

/-! ## Hexadecimal digits -/

/-- The value of a hexadecimal digit. -/
def hexDigit? (c : Char) : Option Nat := (List.range 16).find? fun n => Nat.digitChar n == c.toLower

/-- The number with the given hexadecimal digits. -/
def readHex? (t : Text) : Option Nat := t.foldlM (fun n c => (hexDigit? c).map (16 * n + ·)) 0

theorem hexDigit?_digitChar : ∀ n < 16, hexDigit? (Nat.digitChar n) = some n := by decide

/-- The last hexadecimal digits of a number are read as its remainder. -/
theorem readHex?_hexDigits (width n : Nat) :
    readHex? (hexDigits width n) = some (n % 16 ^ width) := by
  induction width generalizing n with
  | zero => simp [hexDigits, readHex?, Nat.mod_one]
  | succ width ih =>
    have hdigit : hexDigit? (Nat.digitChar (n % 16)) = some (n % 16) :=
      hexDigit?_digitChar _ (Nat.mod_lt n (by decide))
    have hfront : readHex? (hexDigits (width + 1) n) =
        (readHex? (hexDigits width (n / 16))).bind
          fun m => (hexDigit? (Nat.digitChar (n % 16))).map (16 * m + ·) := by
      simp [readHex?, hexDigits, List.foldlM_append]
    rw [hfront, ih, hdigit, Nat.pow_succ, Nat.mul_comm, Nat.mod_mul]
    simp [Nat.add_comm]

end DottedNames.Text
