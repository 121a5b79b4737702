import DottedNames.Datum.Presentation
import DottedNames.Log.Moment.Format
import DottedNames.Log.Record

/-!
# Fields of records in a text

A template can refer to the message, the level, the time and the bound fields of a record, and to
the thread and the process that write it. What it refers to has parts: a level has a name, a number
and an icon, a time has its year, its hour and so on, a number has a real and an imaginary part, and
of lists, texts and records the items can be taken. Every datum has a kind.

In the text a value stands as its presentation says. A level is laid out by its name and a time by a
format of `DottedNames.Log.Moment.Format`. A value may be turned into a text first, which is then
laid out.
-/

namespace DottedNames

/-- What a template can refer to. -/
inductive FieldValue where
  /-- A datum. -/
  | datum (d : Datum)
  /-- A level. -/
  | level (l : Level)
  /-- A time. -/
  | moment (m : Moment)
  /-- The kind of a datum. -/
  | kind (k : Kind)
  /-- A thread or a process, by its name. -/
  | worker (name : Text)
  /-- A value that can only be shown, by its text and its literal. -/
  | shown (text literal : Text)

/-- How to get from a value to a part of it. -/
inductive Selector where
  /-- A part with a name. -/
  | part (name : Text)
  /-- An item. -/
  | item (key : Text)
deriving DecidableEq

/-- How a value is turned into a text. -/
inductive Conversion where
  /-- As it is inserted into a text. -/
  | inserted
  /-- As its literal. -/
  | literal
  /-- As its literal with nothing but ASCII characters. -/
  | ascii
deriving DecidableEq

/-- The conversion that a character stands for. -/
def Conversion.ofChar? : Char → Option Conversion
  | 's' => some .inserted
  | 'r' => some .literal
  | 'a' => some .ascii
  | _ => none

/-- A level with all its parts. -/
def Level.description (l : Level) : Text :=
  "(name=".toList ++ l.name.quoted ++ ", no=".toList ++ Text.ofNat l.severity ++
    ", icon=".toList ++ l.icon.quoted ++ [')']

namespace FieldValue

/-! ## Parts -/

/-- A natural number as a value. -/
def ofNat (n : Nat) : FieldValue := .datum (.int n)

/-- The parts of a level, by their names. -/
def levelParts (l : Level) : List (String × FieldValue) := [
  ("name", .datum (.text l.name)),
  ("no", ofNat l.severity),
  ("icon", .datum (.text l.icon))]

/-- The parts of a time, by their names: its numbers, its zone, and the bounds of what a time can
be. No time is told twice. -/
def momentParts (m : Moment) : List (String × FieldValue) := [
  ("year", ofNat m.date.year),
  ("month", ofNat m.date.month),
  ("day", ofNat m.date.day),
  ("hour", ofNat m.time.hour),
  ("minute", ofNat m.time.minute),
  ("second", ofNat m.time.second),
  ("microsecond", ofNat m.time.microsecond),
  ("fold", ofNat 0),
  ("tzinfo", .shown m.zone m.zoneLiteral),
  ("min", .shown "0001-01-01 00:00:00".toList "datetime.datetime(1, 1, 1, 0, 0)".toList),
  ("max", .shown "9999-12-31 23:59:59.999999".toList
    "datetime.datetime(9999, 12, 31, 23, 59, 59, 999999)".toList),
  ("resolution", .shown "0:00:00.000001".toList "datetime.timedelta(microseconds=1)".toList)]

/-- The parts of an integer, by their names. -/
def intParts (i : Int) : List (String × FieldValue) := [
  ("real", .datum (.int i)),
  ("imag", ofNat 0),
  ("numerator", .datum (.int i)),
  ("denominator", ofNat 1)]

/-- The parts of a real, by their names. -/
def realParts (x : BinaryNumber) : List (String × FieldValue) := [
  ("real", .datum (.real x)),
  ("imag", .datum (.real ⟨false, 0⟩))]

/-- The parts of a datum, by their names. -/
def datumParts (d : Datum) : List (String × FieldValue) :=
  ("__class__", .kind d.kind) ::
    match d with
    | .bool b => intParts b.toInt
    | .int i => intParts i
    | .real x => realParts x
    | _ => []

/-- The parts of a kind, by their names. -/
def kindParts (k : Kind) : List (String × FieldValue) := [
  ("__name__", .datum (.text k.word)),
  ("__qualname__", .datum (.text k.word)),
  ("__module__", .datum (.text "builtins".toList))]

/-- The parts of a value, by their names. -/
def parts : FieldValue → List (String × FieldValue)
  | .datum d => datumParts d
  | .level l => levelParts l
  | .moment m => momentParts m
  | .kind k => kindParts k
  | .worker name => [("name", .datum (.text name))]
  | .shown _ _ => []

/-- The item of a datum with a key. A key of digits is a place in a list or a text, and any other
key is one of a record. -/
def item? (d : Datum) (key : Text) : Option Datum :=
  if key.all Text.isDecimalDigit then
    match d with
    | .list items => items[Text.toNat key]?
    | .text t => t[Text.toNat key]?.map fun c => .text [c]
    | _ => none
  else
    match d with
    | .record fields => Datum.field? fields key
    | _ => none

/-- The part of a value that a selector leads to. -/
def select? : FieldValue → Selector → Option FieldValue
  | v, .part name => ((parts v).find? fun p => p.1.toList == name).map Prod.snd
  | .datum d, .item key => (item? d key).map .datum
  | _, _ => none

/-! ## Layout -/

/-- The text that a kind is shown by. -/
def kindText (k : Kind) : Text := "<class '".toList ++ k.word ++ "'>".toList

/-- The value as it is inserted into a text. A thread or a process has a number there, which is
another one every time. -/
def inserted? : FieldValue → Option Text
  | .datum d => some d.inserted
  | .level l => some l.description
  | .moment m => some m.text
  | .kind k => some (kindText k)
  | .worker _ => none
  | .shown text _ => some text

/-- The literal of the value. -/
def literal? : FieldValue → Option Text
  | .datum d => some d.literal
  | .level l => some l.description
  | .moment m => some m.literal
  | .kind k => some (kindText k)
  | .worker _ => none
  | .shown _ literal => some literal

/-- The value as a text. -/
def convert? (v : FieldValue) : Conversion → Option Text
  | .inserted => inserted? v
  | .literal => literal? v
  | .ascii => (literal? v).map Text.asciiOnly

/-- The value laid out as a presentation says. -/
def present? (presentation : Text) : FieldValue → Option Text
  | .datum d => d.present presentation
  | .level l => (Datum.text l.name).present presentation
  | .moment m => m.write presentation
  | v => if presentation.isEmpty then inserted? v else none

end FieldValue

/-- The field of a record that a template refers to by a name, when the record is written at a
moment by the main program, in its only thread. No record is about an exception. -/
def LogRecord.field? (r : LogRecord) (m : Moment) (name : Text) : Option FieldValue :=
  if name = "message".toList then some (.datum (.text r.message))
  else if name = "level".toList then some (.level r.level)
  else if name = "time".toList then some (.moment m)
  else if name = "extra".toList then some (.datum (.record r.bindings))
  else if name = "exception".toList then some (.datum (.text []))
  else if name = "name".toList then some (.datum (.text "__main__".toList))
  else if name = "thread".toList then some (.worker "MainThread".toList)
  else if name = "process".toList then some (.worker "MainProcess".toList)
  else none

end DottedNames
