import DottedNames.Log.Moment

/-!
# Formats with letters

In such a format runs of letters stand for the parts of a moment: `YYYY` for the year, `mm` for the
minute. The longest run counts: `MMMM` is the name of the month and not its number twice. A run
between square brackets stands for itself, and so does every other character.
-/

namespace DottedNames

namespace Moment

/-- The runs of letters that stand for a part of a moment, longer ones before shorter ones. -/
def letterParts : List (String × Part) := [
  ("YYYY", fun m => Text.padded 4 m.date.year),
  ("YY", fun m => Text.padded 2 (m.date.year % 100)),
  ("Q", fun m => Text.ofNat ((m.date.month - 1) / 3 + 1)),
  ("MMMM", fun m => m.date.monthName),
  ("MMM", fun m => m.date.monthName.take 3),
  ("MM", fun m => Text.padded 2 m.date.month),
  ("M", fun m => Text.ofNat m.date.month),
  ("DDDD", fun m => Text.padded 3 m.date.dayOfYear),
  ("DDD", fun m => Text.ofNat m.date.dayOfYear),
  ("DD", fun m => Text.padded 2 m.date.day),
  ("D", fun m => Text.ofNat m.date.day),
  ("dddd", fun m => m.date.weekdayName),
  ("ddd", fun m => m.date.weekdayName.take 3),
  ("d", fun m => Text.ofNat m.date.weekday),
  ("E", fun m => Text.ofNat (m.date.weekday + 1)),
  ("HH", fun m => Text.padded 2 m.time.hour),
  ("H", fun m => Text.ofNat m.time.hour),
  ("hh", fun m => Text.padded 2 m.time.dialHour),
  ("h", fun m => Text.ofNat m.time.dialHour),
  ("mm", fun m => Text.padded 2 m.time.minute),
  ("m", fun m => Text.ofNat m.time.minute),
  ("ss", fun m => Text.padded 2 m.time.second),
  ("s", fun m => Text.ofNat m.time.second),
  ("SSSSSS", fun m => Text.padded 6 m.time.microsecond),
  ("SSSSS", fun m => Text.padded 5 (m.time.microsecond / 10)),
  ("SSSS", fun m => Text.padded 4 (m.time.microsecond / 100)),
  ("SSS", fun m => Text.padded 3 (m.time.microsecond / 1000)),
  ("SS", fun m => Text.padded 2 (m.time.microsecond / 10000)),
  ("S", fun m => Text.ofNat (m.time.microsecond / 100000)),
  ("A", fun m => m.time.half),
  ("ZZ", aheadText []),
  ("Z", aheadText [':']),
  ("zz", fun m => m.zone),
  ("X", fun m => Text.ofInt m.timestamp),
  ("x", fun m => Text.ofInt (m.timestamp * 1000000 + 2 * m.time.microsecond))]

/-- The first run of letters that a format starts with. -/
def letterPart? (format : Text) : Option (Text × Part) :=
  (letterParts.find? fun p => p.1.toList.isPrefixOf format).map fun p => (p.1.toList, p.2)

/-- What stands between the square brackets that a format starts with: a run of letters, the mark of
universal time, or nothing. -/
def bracketed? (format : Text) : Option Text :=
  match format with
  | '[' :: rest =>
    let inner :=
      if "!UTC".toList.isPrefixOf rest then "!UTC".toList
      else ((letterPart? rest).map Prod.fst).getD []
    if (rest.drop inner.length).head? = some ']' then some inner else none
  | _ => none

/-- The moment in a format with letters. -/
def writeLetters (m : Moment) : (format : Text) → Text
  | [] => []
  | c :: rest =>
    match bracketed? (c :: rest) with
    | some inner => inner ++ writeLetters m (rest.drop (inner.length + 1))
    | none =>
      match letterPart? (c :: rest) with
      | some (letters, part) => part m ++ writeLetters m (rest.drop (letters.length - 1))
      | none => c :: writeLetters m rest
termination_by format => format.length
decreasing_by all_goals (simp only [List.length_drop, List.length_cons]; omega)

end Moment

end DottedNames
