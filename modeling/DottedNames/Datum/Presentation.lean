import DottedNames.Datum.Notation
import DottedNames.Datum
import DottedNames.Text.DecimalDigit

/-!
# Presentations

A presentation says how a datum is laid out in a text. It is written as a short text, in which every
part may be missing and the parts come in this order:

* a character to fill with, and an arrow or sign for the side to fill on;
* a sign rule, the letter `z` for a zero without a minus sign, `#` for a notation with its mark;
* `0` for filling with zeros between the sign and the digits;
* the least width, a separator for groups of digits, and the precision behind a point;
* the letter of a notation.

Texts, integers and reals each take some of the parts and refuse the others. Every other datum takes
the empty presentation only, and the empty presentation writes any datum as it is inserted.
-/

namespace DottedNames

/-! ## Parts -/

/-- On which side of a value the filling goes. -/
inductive Alignment where
  /-- The value is on the left. -/
  | left
  /-- The value is on the right. -/
  | right
  /-- The value is in the middle, and closer to the left if it has to be. -/
  | middle
  /-- The digits are on the right, and the sign is on the left. -/
  | apart
deriving DecidableEq

/-- The alignment that a character stands for. -/
def Alignment.ofChar? : Char → Option Alignment
  | '<' => some .left
  | '>' => some .right
  | '^' => some .middle
  | '=' => some .apart
  | _ => none

/-- How a value is laid out. -/
structure Presentation where
  /-- The character to fill with. -/
  fill : Option Char
  /-- The side to fill on. -/
  alignment : Option Alignment
  /-- How a number that is not negative shows its sign. -/
  sign : Option Char
  /-- Whether a zero never shows a minus sign. -/
  plainZero : Bool
  /-- Whether a notation shows its mark. -/
  marked : Bool
  /-- Whether zeros fill the place between sign and digits. -/
  zeros : Bool
  /-- The least width. -/
  width : Nat
  /-- The separator of groups of digits. -/
  separator : Option Char
  /-- The precision. -/
  precision : Option Nat
  /-- The letter of a notation. -/
  letter : Option Char
deriving DecidableEq

namespace Presentation

/-- The first character of a text, if it satisfies a condition, and the text behind it. -/
def takeOne (p : Char → Bool) : Text → Option Char × Text
  | [] => (none, [])
  | c :: cs => if p c then (some c, cs) else (none, c :: cs)

/-- The number that a text starts with, and the text behind it. -/
def takeNumber (t : Text) : Option Nat × Text :=
  let digits := t.takeWhile Text.isDecimalDigit
  (if digits.isEmpty then none else some (Text.toNat digits), t.drop digits.length)

/-- The filling and the alignment that a text starts with, and the text behind them. -/
def takeAlignment (t : Text) : Option Char × Option Alignment × Text :=
  match t with
  | c :: d :: rest =>
    match Alignment.ofChar? d with
    | some a => (some c, some a, rest)
    | none =>
      match Alignment.ofChar? c with
      | some a => (none, some a, d :: rest)
      | none => (none, none, t)
  | [c] =>
    match Alignment.ofChar? c with
    | some a => (none, some a, [])
    | none => (none, none, t)
  | [] => (none, none, t)

/-- The presentation that a text describes. -/
def parse? (t : Text) : Option Presentation :=
  let (fill, alignment, t) := takeAlignment t
  let (sign, t) := takeOne (· ∈ ['+', '-', ' ']) t
  let (plainZero, t) := takeOne (· == 'z') t
  let (marked, t) := takeOne (· == '#') t
  let (zeros, t) := takeOne (fun c => fill.isNone && c == '0') t
  let (width, t) := takeNumber t
  let (separator, t) := takeOne (· ∈ [',', '_']) t
  let (point, t) := takeOne (· == '.') t
  let (precision, t) := if point.isSome then takeNumber t else (none, t)
  if point.isSome && precision.isNone then none
  else if 1 < t.length then none
  else some {
    fill, alignment, sign
    plainZero := plainZero.isSome
    marked := marked.isSome
    zeros := zeros.isSome
    width := width.getD 0
    separator, precision
    letter := t.head? }

/-! ## Layout -/

/-- The character that fills a value up to its width. -/
def filler (p : Presentation) : Char := if p.zeros then '0' else p.fill.getD ' '

/-- A value of two parts, filled up to the width. -/
def fillUp (p : Presentation) (alignment : Alignment) (front back : Text) : Text :=
  let missing := p.width - (front.length + back.length)
  let filled (n : Nat) : Text := List.replicate n p.filler
  match alignment with
  | .left => front ++ back ++ filled missing
  | .right => filled missing ++ front ++ back
  | .middle => filled (missing / 2) ++ front ++ back ++ filled (missing - missing / 2)
  | .apart => front ++ filled missing ++ back

/-- A text laid out: cut to the precision, and on the left unless something else is asked for. -/
def layText (p : Presentation) (t : Text) : Option Text :=
  let alignment := p.alignment.getD .left
  if p.sign.isSome || p.plainZero || p.marked || p.separator.isSome then none
  else if alignment = .apart || p.letter.any (· != 's') then none
  else
    let t := match p.precision with
      | some n => t.take n
      | none => t
    some (p.fillUp alignment [] t)

/-- A number in some notation. -/
structure Numeral where
  /-- Whether there is a minus sign. -/
  negative : Bool
  /-- The mark of the notation. -/
  mark : Text
  /-- The digits in front of the point. -/
  whole : Text
  /-- What follows those digits. -/
  rest : Text

/-- Digits in groups of the given size, counted from the right. -/
def inGroups (separator : Char) (size : Nat) (digits : Text) : Text :=
  digits.zipIdx.flatMap fun (c, i) =>
    if i ≠ 0 ∧ (digits.length - i) % size = 0 then [separator, c] else [c]

/-- Digits in groups, with as many zeros in front as it takes to reach a width. -/
def groupedTo (separator : Option (Char × Nat)) (width : Nat) (digits : Text) : Text :=
  let written (zeros : Nat) : Text :=
    let ds := List.replicate zeros '0' ++ digits
    match separator with
    | some (c, size) => inGroups c size ds
    | none => ds
  let enough := (List.range (width + 1)).find? fun zeros => width ≤ (written zeros).length
  written (enough.getD 0)

/-- A number laid out: on the right unless something else is asked for. Zeros between the sign and
the digits count as digits, and are put in groups with them. -/
def layNumeral (p : Presentation) (groupSize : Nat) (n : Numeral) : Text :=
  let sign : Text :=
    if n.negative then ['-']
    else match p.sign with
      | some '+' => ['+']
      | some ' ' => [' ']
      | _ => []
  let front := sign ++ n.mark
  let alignment := p.alignment.getD (if p.zeros then .apart else .right)
  let least :=
    if p.filler = '0' ∧ alignment = .apart then p.width - (front.length + n.rest.length) else 0
  let whole :=
    if n.whole.isEmpty then [] else groupedTo (p.separator.map (·, groupSize)) least n.whole
  p.fillUp alignment front (whole ++ n.rest)

/-! ## Numbers -/

/-- Whether the separator of groups may stand with a notation. -/
def separates (separator : Option Char) (letter : Option Char) : Bool :=
  match separator with
  | none => true
  | some c =>
    letter.all fun l =>
      l ∈ ['d', 'e', 'f', 'g', 'E', 'F', 'G', '%'] || (c == '_' && l ∈ ['b', 'o', 'x', 'X'])

/-- The text of an infinite number in the notation of a letter, or without one. -/
def infiniteText? (letter : Option Char) : Option Text :=
  match letter with
  | none => some "inf".toList
  | some '%' => some "inf%".toList
  | some c =>
    if c ∈ ['e', 'f', 'g', 'n'] then some "inf".toList
    else if c ∈ ['E', 'F', 'G'] then some "INF".toList
    else none

/-- A text with a power of ten that has a point in front of that power at the latest. -/
def pointed (t : Text) : Text :=
  let front := t.takeWhile (· != 'e')
  if front.contains '.' then t else front ++ '.' :: t.drop front.length

/-- The text of a finite number of units in the notation of a letter, or without one. -/
def finiteText (p : Presentation) (units : Nat) : Option Text :=
  let places := p.precision.getD 6
  let general := BinaryNumber.generalText ⟨p.marked, false⟩ places units
  match p.letter with
  | none => some <|
    match p.precision with
    | some n => BinaryNumber.generalText ⟨p.marked, true⟩ n units
    | none =>
      let t := (BinaryNumber.mk false units).text
      if p.marked then pointed t else t
  | some 'e' => some (BinaryNumber.scientificText p.marked places units)
  | some 'E' => some (Text.toUpper (BinaryNumber.scientificText p.marked places units))
  | some 'f' => some (BinaryNumber.fixedText p.marked places units)
  | some 'F' => some (BinaryNumber.fixedText p.marked places units)
  | some 'g' => some general
  | some 'n' => some general
  | some 'G' => some general.toUpper
  | some '%' =>
    let units := BinaryNumber.hundredfold units
    if units = BinaryNumber.infinity then infiniteText? p.letter
    else some (BinaryNumber.fixedText p.marked places units ++ ['%'])
  | some _ => none

/-- Whether every digit in front of the power of ten is a zero. -/
def isZeroText (t : Text) : Bool :=
  (t.takeWhile fun c => c != 'e' && c != 'E').all fun c => !c.isDigit || c == '0'

/-- A real laid out. -/
def layReal (p : Presentation) (x : BinaryNumber) : Option Text :=
  if separates p.separator p.letter then
    (if x.isInfinite then infiniteText? p.letter else finiteText p x.units).map fun t =>
      p.layNumeral 3 {
        negative := x.negative && !(p.plainZero && !x.isInfinite && isZeroText t)
        mark := []
        whole := t.takeWhile Char.isDigit
        rest := t.dropWhile Char.isDigit }
  else none

/-- The base of the notation of a letter, and its mark. -/
def base? : Option Char → Option (Nat × Text)
  | none => some (10, [])
  | some 'd' => some (10, [])
  | some 'n' => some (10, [])
  | some 'b' => some (2, ['0', 'b'])
  | some 'o' => some (8, ['0', 'o'])
  | some 'x' => some (16, ['0', 'x'])
  | some 'X' => some (16, ['0', 'X'])
  | some _ => none

/-- An integer laid out as a character. -/
def layChar (p : Presentation) (i : Int) : Option Text :=
  if p.sign.isSome || p.marked || p.separator.isSome then none
  else if 0 ≤ i ∧ i.toNat.isValidChar then
    some (p.layNumeral 3 ⟨false, [], [], [Char.ofNat i.toNat]⟩)
  else none

/-- An integer laid out. The letters of notations for reals turn it into one, which must not become
infinite. -/
def layInt (p : Presentation) (i : Int) : Option Text :=
  if p.letter.any (· ∈ ['e', 'E', 'f', 'F', 'g', 'G', '%']) then
    let x := BinaryNumber.ofDecimal (i < 0) ⟨i.natAbs, 0⟩
    if x.isInfinite then none else p.layReal x
  else if p.precision.isSome || p.plainZero then none
  else if p.letter = some 'c' then p.layChar i
  else if separates p.separator p.letter then
    (base? p.letter).map fun (base, mark) =>
      let digits := Nat.toDigits base i.natAbs
      p.layNumeral (if base = 10 then 3 else 4) {
        negative := i < 0
        mark := if p.marked then mark else []
        whole := if p.letter = some 'X' then Text.toUpper digits else digits
        rest := [] }
  else none

end Presentation

/-- A datum laid out as the text of a presentation says, if it can be. -/
def Datum.present (presentation : Text) (d : Datum) : Option Text :=
  if presentation.isEmpty then some d.inserted
  else do
    let p ← Presentation.parse? presentation
    match d with
    | .text t => p.layText t
    | .bool b => p.layInt b.toInt
    | .int i => p.layInt i
    | .real x => p.layReal x
    | _ => none

end DottedNames
