import DottedNames.Log.Moment.Directives
import DottedNames.Log.Moment.Letters

/-!
# Formats of moments

A format with a percent sign is one of `DottedNames.Log.Moment.Directives`, and any other one is one
of `DottedNames.Log.Moment.Letters`. The empty format stands for a plain one. A format that ends in
`!UTC` shows the moment in universal time.
-/

namespace DottedNames

namespace Moment

/-- The format that is used when none is given. -/
def plainFormat : Text := "%Y-%m-%dT%H:%M:%S.%f%z".toList

/-- The mark of universal time at the end of a format. -/
def universalMark : Text := "!UTC".toList

/-- More places than a second has in a format. -/
def tooManyPlaces : Text := "SSSSSSS".toList

/-- The day after a date. -/
def nextDate (d : Date) : Date :=
  if d.day < (Date.monthLengths d.year).getD (d.month - 1) 31 then { d with day := d.day + 1 }
  else if d.month < 12 then ⟨d.year, d.month + 1, 1⟩
  else ⟨d.year + 1, 1, 1⟩

/-- The day before a date. -/
def previousDate (d : Date) : Date :=
  if 1 < d.day then { d with day := d.day - 1 }
  else if 1 < d.month then ⟨d.year, d.month - 1, (Date.monthLengths d.year).getD (d.month - 2) 31⟩
  else ⟨d.year - 1, 12, 31⟩

/-- The same moment in universal time. -/
def universal (m : Moment) : Moment :=
  let minutes := (m.time.hour * 60 + m.time.minute : Int) - m.ahead
  let date :=
    if minutes < 0 then previousDate m.date
    else if 1440 ≤ minutes then nextDate m.date
    else m.date
  let ofDay := (minutes % 1440).toNat
  { date, time := { m.time with hour := ofDay / 60, minute := ofDay % 60 } }

/-- The moment in a format; `none` if the format asks for something that a moment does not have. -/
def write (m : Moment) (format : Text) : Option Text :=
  let isUniversal := universalMark.isSuffixOf format
  let format := if isUniversal then format.take (format.length - universalMark.length) else format
  let m := if isUniversal then m.universal else m
  let format := if format.isEmpty then plainFormat else format
  if '%' ∈ format then some (writePercents m format)
  else if tooManyPlaces.occursIn format then none
  else some (writeLetters m format)

end Moment

end DottedNames
