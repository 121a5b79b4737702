import DottedNames.Log.Moment

/-!
# Formats with percent signs

In such a format a percent sign begins a directive, which ends in a letter that says which part of
the moment to write. In between a directive may have, in this order,

* flags: `_`, `-` and `0` say what fills a number up, `^` asks for capitals, and `#` for the other
  case;
* the least width;
* a modifier, `E` or `O`, which changes nothing, but some letters refuse one or both of them.

A directive with an unknown letter stands for itself. Every other character does, too.

Three letters that stand right behind the percent sign are replaced before the directives are read,
so that they can end up inside of one: the microsecond and the two about the zone. Nothing is
written if the text would become much longer than the format.
-/

namespace DottedNames

/-- What fills up a number in front. -/
inductive Padding where
  /-- Blanks. -/
  | blanks
  /-- Zeros. -/
  | zeros
  /-- Nothing, so that only the digits are written. -/
  | nothing
deriving DecidableEq

/-- The padding that a flag asks for. -/
def Padding.ofChar? : Char → Option Padding
  | '_' => some .blanks
  | '0' => some .zeros
  | '-' => some .nothing
  | _ => none

/-- A directive of a format. -/
structure Directive where
  /-- The padding that the last flag about it asks for. -/
  padding : Option Padding
  /-- Whether capitals are asked for. -/
  capital : Bool
  /-- Whether the other case is asked for. -/
  otherCase : Bool
  /-- The least width. -/
  width : Nat
  /-- The modifier. -/
  modifier : Option Char
  /-- The letter, unless the format ends before it. -/
  letter : Option Char
  /-- The directive as it stands in the format. -/
  typed : Text
deriving DecidableEq

/-- What is written for the letter of a directive. -/
inductive DirectiveContent where
  /-- A name. -/
  | name (t : Text)
  /-- The half of the day, in small letters or in capitals. -/
  | half (small : Bool) (t : Text)
  /-- A text with parts that have been filled up already. -/
  | phrase (t : Text)
  /-- A number, filled up with the padding to the places unless flags ask for something else. -/
  | number (padding : Padding) (places n : Nat)
  /-- Nothing at all, whatever the width. -/
  | nothing

namespace Directive

/-! ## Reading -/

/-- Whether a character is a flag. -/
def isFlag (c : Char) : Bool := (Padding.ofChar? c).isSome || c == '^' || c == '#'

/-- The directive that a format starts with, behind the percent sign. -/
def read (t : Text) : Directive :=
  let flags := t.takeWhile isFlag
  let t := t.drop flags.length
  let digits := t.takeWhile Char.isDigit
  let t := t.drop digits.length
  let modifier := t.head?.filter fun c => c == 'E' || c == 'O'
  let letter := (t.drop modifier.toList.length).head?
  { padding := (flags.filterMap Padding.ofChar?).getLast?
    capital := flags.contains '^'
    otherCase := flags.contains '#'
    width := digits.foldl (fun n c => n * 10 + (c.toNat - '0'.toNat)) 0
    modifier
    letter
    typed := '%' :: flags ++ digits ++ modifier.toList ++ letter.toList }

/-! ## Writing -/

/-- A text filled up to the width of the directive. -/
def filled (d : Directive) (t : Text) : Text :=
  t.leftpad d.width (if d.padding = some .zeros then '0' else ' ')

/-- What is written for a directive with the given content. An empty phrase without padding stays
empty. -/
def layOut (d : Directive) : DirectiveContent → Text
  | .name t => d.filled (if d.capital || d.otherCase then t.toUpper else t)
  | .half small t => d.filled (if small || d.otherCase then t.toLower else t)
  | .phrase t =>
    if t.isEmpty && d.padding = some .nothing then []
    else d.filled (if d.capital then t.toUpper else t)
  | .number padding places n =>
    match d.padding.getD padding with
    | .blanks => (Text.ofNat n).leftpad (max d.width places) ' '
    | .zeros => (Text.ofNat n).leftpad (max d.width places) '0'
    | .nothing => d.filled (Text.ofNat n)
  | .nothing => []

/-- The date with the number of the month in front. -/
def slashedDate (d : Date) : Text :=
  Text.padded 2 d.month ++ '/' :: Text.padded 2 d.day ++ '/' :: Text.padded 2 (d.year % 100)

/-- The date with the year in front, which has as many digits as it needs. -/
def dashedDate (d : Date) : Text :=
  Text.ofNat d.year ++ '-' :: Text.padded 2 d.month ++ '-' :: Text.padded 2 d.day

/-- The time on a dial of twelve hours. -/
def dialTime (t : TimeOfDay) : Text :=
  Text.padded 2 t.dialHour ++ ':' :: Text.padded 2 t.minute ++ ':' :: Text.padded 2 t.second ++
    ' ' :: t.half

/-- The date and the time, as they are in a letter head. -/
def fullText (m : Moment) : Text :=
  m.date.weekdayName.take 3 ++ ' ' :: m.date.monthName.take 3 ++
    ' ' :: (Text.ofNat m.date.day).leftpad 2 ' ' ++ ' ' :: m.time.secondText ++
    ' ' :: Text.ofNat m.date.year

/-- The letters, with the modifiers that each of them refuses and with their contents. -/
def contents : List (Char × String × (Moment → DirectiveContent)) := [
  ('a', "EO", fun m => .name (m.date.weekdayName.take 3)),
  ('A', "EO", fun m => .name m.date.weekdayName),
  ('b', "E", fun m => .name (m.date.monthName.take 3)),
  ('B', "E", fun m => .name m.date.monthName),
  ('c', "O", fun m => .phrase (fullText m)),
  ('C', "", fun m => .number .zeros 1 (m.date.year / 100)),
  ('d', "E", fun m => .number .zeros 2 m.date.day),
  ('D', "EO", fun m => .phrase (slashedDate m.date)),
  ('e', "E", fun m => .number .blanks 2 m.date.day),
  ('F', "EO", fun m => .phrase (dashedDate m.date)),
  ('g', "E", fun m => .number .zeros 2 (m.date.weekYear % 100)),
  ('G', "E", fun m => .number .zeros 1 m.date.weekYear),
  ('h', "E", fun m => .name (m.date.monthName.take 3)),
  ('H', "E", fun m => .number .zeros 2 m.time.hour),
  ('I', "E", fun m => .number .zeros 2 m.time.dialHour),
  ('j', "E", fun m => .number .zeros 3 m.date.dayOfYear),
  ('k', "E", fun m => .number .blanks 2 m.time.hour),
  ('l', "E", fun m => .number .blanks 2 m.time.dialHour),
  ('m', "E", fun m => .number .zeros 2 m.date.month),
  ('M', "E", fun m => .number .zeros 2 m.time.minute),
  ('n', "", fun _ => .phrase ['\n']),
  ('p', "", fun m => .half false m.time.half),
  ('P', "", fun m => .half true m.time.half),
  ('r', "", fun m => .phrase (dialTime m.time)),
  ('R', "", fun m => .phrase m.time.minuteText),
  ('s', "", fun m => .phrase (Text.ofInt m.timestamp)),
  ('S', "E", fun m => .number .zeros 2 m.time.second),
  ('t', "", fun _ => .phrase ['\t']),
  ('T', "", fun m => .phrase m.time.secondText),
  ('u', "", fun m => .number .zeros 1 (m.date.weekday + 1)),
  ('U', "E", fun m => .number .zeros 2 m.date.sundays),
  ('V', "E", fun m => .number .zeros 2 m.date.week),
  ('w', "E", fun m => .number .zeros 1 ((m.date.weekday + 1) % 7)),
  ('W', "E", fun m => .number .zeros 2 m.date.mondays),
  ('x', "O", fun m => .phrase (slashedDate m.date)),
  ('X', "O", fun m => .phrase m.time.secondText),
  ('y', "", fun m => .number .zeros 2 (m.date.year % 100)),
  ('Y', "O", fun m => .number .zeros 1 m.date.year),
  ('z', "", fun _ => .nothing),
  ('Z', "", fun _ => .phrase []),
  ('%', "", fun _ => .phrase ['%'])]

/-- Whether a letter that refuses some modifiers refuses that of the directive. -/
def isRefusedBy (d : Directive) (refused : String) : Bool :=
  d.modifier.any fun c => refused.toList.contains c

/-- The letters of the short name of the month. -/
def shortMonthLetters : List Char := ['b', 'h']

/-- What is written for a directive: itself, if its letter is unknown or refuses its modifier. The
short name of the month heeds the flags of a name even then. -/
def content (d : Directive) (m : Moment) : DirectiveContent :=
  match d.letter.bind fun c => contents.find? (·.1 == c) with
  | some (c, refused, content) =>
    if !d.isRefusedBy refused then content m
    else if shortMonthLetters.contains c then .name d.typed
    else .phrase d.typed
  | none => .phrase d.typed

end Directive

namespace Moment

/-- A format with the letters replaced that no directive has: the microsecond, how far the zone is
ahead, and its name. -/
def replaceLetters (m : Moment) : (format : Text) → Text
  | [] => []
  | '%' :: 'f' :: rest => Text.padded 6 m.time.microsecond ++ replaceLetters m rest
  | '%' :: 'z' :: rest => m.aheadText [] ++ replaceLetters m rest
  | '%' :: 'Z' :: rest =>
    m.zone.flatMap (fun c => if c = '%' then [c, c] else [c]) ++ replaceLetters m rest
  | '%' :: c :: rest => '%' :: c :: replaceLetters m rest
  | c :: rest => c :: replaceLetters m rest

/-- The moment in a format with directives, if the text is shorter than the room for it. A width
beyond the room is as good as one that fills it. -/
def writeDirectives? (m : Moment) (room : Nat) : (format : Text) → Option Text
  | [] => some []
  | c :: rest =>
    if c = '%' then
      let d := Directive.read rest
      let written := { d with width := min d.width room }.layOut (d.content m)
      if written.length < room then
        (writeDirectives? m (room - written.length) (rest.drop (d.typed.length - 1))).map
          (written ++ ·)
      else none
    else if 1 < room then (writeDirectives? m (room - 1) rest).map (c :: ·)
    else none
termination_by format => format.length
decreasing_by all_goals (simp only [List.length_drop, List.length_cons]; omega)

/-- How long the text of a format may become. -/
def room (format : Text) : Nat := max 1024 (256 * format.length).nextPowerOfTwo

/-- The moment in a format with percent signs. The format ends before the first character with the
code zero. -/
def writePercents (m : Moment) (format : Text) : Text :=
  let format := m.replaceLetters (format.takeWhile (· != '\x00'))
  (m.writeDirectives? (room format) format).getD []

end Moment

end DottedNames
