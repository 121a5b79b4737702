import DottedNames.Text.Quoted

/-!
# Moments

What the clock shows: a date, a time of day and how far the zone is ahead of universal time.

The weeks of a year are counted in three ways. Two of them count from the first Sunday or the first
Monday of the year, and the days before it are in week zero. By the third every week from Monday to
Sunday is in one year as a whole: the year that its Thursday is in.
-/

namespace DottedNames

/-- A time of day. -/
structure TimeOfDay where
  /-- The hour. -/
  hour : Nat
  /-- The minute. -/
  minute : Nat
  /-- The second. -/
  second : Nat
  /-- The microsecond. -/
  microsecond : Nat
deriving DecidableEq

namespace TimeOfDay

/-- The hour and the minute. -/
def minuteText (t : TimeOfDay) : Text := Text.padded 2 t.hour ++ ':' :: Text.padded 2 t.minute

/-- The hour, the minute and the second. -/
def secondText (t : TimeOfDay) : Text := t.minuteText ++ ':' :: Text.padded 2 t.second

/-- The time with milliseconds; what is less than a millisecond is cut off. -/
def text (t : TimeOfDay) : Text := t.secondText ++ '.' :: Text.padded 3 (t.microsecond / 1000)

/-- The hour on a dial of twelve. -/
def dialHour (t : TimeOfDay) : Nat := (t.hour + 11) % 12 + 1

/-- Which half of the day it is. -/
def half (t : TimeOfDay) : Text := if t.hour < 12 then "AM".toList else "PM".toList

/-- The seconds since midnight. -/
def seconds (t : TimeOfDay) : Nat := (t.hour * 60 + t.minute) * 60 + t.second

end TimeOfDay

/-- A date of the Gregorian calendar. -/
structure Date where
  /-- The year. -/
  year : Nat
  /-- The month, from one. -/
  month : Nat
  /-- The day of the month, from one. -/
  day : Nat
deriving DecidableEq

namespace Date

/-- The names of the months. -/
def monthNames : List String :=
  ["January", "February", "March", "April", "May", "June", "July", "August", "September",
    "October", "November", "December"]

/-- The names of the days of the week. -/
def weekdayNames : List String :=
  ["Monday", "Tuesday", "Wednesday", "Thursday", "Friday", "Saturday", "Sunday"]

/-- The lengths of the months of a year. -/
def monthLengths (year : Nat) : List Nat :=
  let leap := year % 4 = 0 ∧ (year % 100 ≠ 0 ∨ year % 400 = 0)
  [31, if leap then 29 else 28, 31, 30, 31, 30, 31, 31, 30, 31, 30, 31]

/-- The number of the day in its year, from one. -/
def dayOfYear (d : Date) : Nat := ((monthLengths d.year).take (d.month - 1)).foldl (· + ·) d.day

/-- The number of the day, from one on the first day of the year one. -/
def ordinal (d : Date) : Nat :=
  let past := d.year - 1
  past * 365 + past / 4 - past / 100 + past / 400 + d.dayOfYear

/-- The days since the first day of the week. -/
def weekday (d : Date) : Nat := (d.ordinal + 6) % 7

/-- How many Sundays the year has had, the date included. -/
def sundays (d : Date) : Nat := (d.dayOfYear + 6 - (d.weekday + 1) % 7) / 7

/-- How many Mondays the year has had, the date included. -/
def mondays (d : Date) : Nat := (d.dayOfYear + 6 - d.weekday) / 7

/-- How many Thursdays the year has had by the end of the week. -/
def thursdays (d : Date) : Nat := (d.dayOfYear + 9 - d.weekday) / 7

/-- The number of the last week of a year; the 28th of December is in it. -/
def lastWeek (year : Nat) : Nat := thursdays ⟨year, 12, 28⟩

/-- The year that the Thursday of the week is in. -/
def weekYear (d : Date) : Nat :=
  if d.thursdays = 0 then d.year - 1
  else if lastWeek d.year < d.thursdays then d.year + 1
  else d.year

/-- The number of the week in the year that its Thursday is in. -/
def week (d : Date) : Nat :=
  if d.thursdays = 0 then lastWeek (d.year - 1)
  else if lastWeek d.year < d.thursdays then 1
  else d.thursdays

/-- The name of the month. -/
def monthName (d : Date) : Text := (monthNames.getD (d.month - 1) "").toList

/-- The name of the day of the week. -/
def weekdayName (d : Date) : Text := (weekdayNames.getD d.weekday "").toList

/-- The year, the month and the day. -/
def text (d : Date) : Text :=
  Text.padded 4 d.year ++ '-' :: Text.padded 2 d.month ++ '-' :: Text.padded 2 d.day

/-- The days since the first day of the year 1970. -/
def daysSince1970 (d : Date) : Int := d.ordinal - 719163

end Date

/-- What the clock shows. -/
structure Moment where
  /-- The date. -/
  date : Date
  /-- The time of day. -/
  time : TimeOfDay
  /-- How many minutes the zone is ahead of universal time. -/
  ahead : Int := 0
  /-- The name of the zone. -/
  zone : Text := "UTC".toList

namespace Moment

/-- The seconds since the beginning of the year 1970 in universal time. -/
def timestamp (m : Moment) : Int :=
  m.date.daysSince1970 * 86400 + m.time.seconds - m.ahead * 60

/-- How far the zone is ahead of universal time, as hours and minutes with a separator. -/
def aheadText (separator : Text) (m : Moment) : Text :=
  (if m.ahead < 0 then '-' else '+') :: Text.padded 2 (m.ahead.natAbs / 60) ++ separator ++
    Text.padded 2 (m.ahead.natAbs % 60)

/-- The date and the time with microseconds. -/
def text (m : Moment) : Text :=
  m.date.text ++ ' ' :: m.time.secondText ++
    (if m.time.microsecond = 0 then [] else '.' :: Text.padded 6 m.time.microsecond) ++
    m.aheadText [':']

/-- The literal of a time span of a number of minutes, in which only the days are ever negative. -/
def spanLiteral (minutes : Int) : Text :=
  let days := minutes / 1440
  let seconds := minutes % 1440 * 60
  let parts :=
    (if days = 0 then [] else ["days=".toList ++ Text.ofInt days]) ++
      (if seconds = 0 then [] else ["seconds=".toList ++ Text.ofInt seconds])
  "datetime.timedelta(".toList ++
    (if parts.isEmpty then ['0'] else Text.join ", ".toList parts) ++ [')']

/-- The literal of the zone. -/
def zoneLiteral (m : Moment) : Text :=
  if m.ahead = 0 ∧ m.zone = "UTC".toList then "datetime.timezone.utc".toList
  else
    "datetime.timezone(".toList ++ spanLiteral m.ahead ++ ", ".toList ++ m.zone.quoted ++ [')']

/-- The literal of the moment. The seconds and the microseconds are left out where they are zero and
nothing but zeros follows. -/
def literal (m : Moment) : Text :=
  let fine :=
    if m.time.microsecond ≠ 0 then [m.time.second, m.time.microsecond]
    else if m.time.second ≠ 0 then [m.time.second]
    else []
  let numbers := [m.date.year, m.date.month, m.date.day, m.time.hour, m.time.minute] ++ fine
  "datetime(".toList ++ Text.join ", ".toList (numbers.map Text.ofNat) ++ ", tzinfo=".toList ++
    m.zoneLiteral ++ [')']

/-- A part of a moment as it is written. -/
abbrev Part := Moment → Text

end Moment

end DottedNames
