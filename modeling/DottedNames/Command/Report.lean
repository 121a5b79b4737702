import DottedNames.Datum.Json
import DottedNames.Location
import DottedNames.Token

/-!
# Reports

The reports of `_cmd_check` and `_cmd_scan`. A report is a list of entries. Each entry is written
either as one line of fields with tabulators between them, or as a record of a JSON list; both forms
tell the same.
-/

namespace DottedNames.Command

/-! ## Validated names -/

/-- The verdict on a text that should be a dotted name. -/
structure CheckEntry where
  /-- The text as it was given. -/
  raw : Text
  /-- The name it spells, or what is wrong with it. -/
  verdict : Except InvalidIdentifier QualName

namespace CheckEntry

/-- The entry for a text. -/
def ofText (t : Text) : CheckEntry := ⟨t, QualName.parse t⟩

/-- Whether the text spells a name. -/
def isValid (e : CheckEntry) : Bool := e.verdict.toBool

/-- How many segments a name has, in words. -/
def sizeWords (q : QualName) : Text :=
  if q.isSimple then "simple".toList else Text.ofNat q.length ++ " parts".toList

/-- The entry as a line. -/
def line (e : CheckEntry) : Text :=
  match e.verdict with
  | .ok q =>
    q.text ++ "\tok\t".toList ++ sizeWords q ++ "\tleaf=".toList ++ q.leaf.text ++ ['\n']
  | .error report => e.raw ++ "\tinvalid\t".toList ++ report.message ++ ['\n']

/-- The entry as a record. -/
def record (e : CheckEntry) : Datum :=
  match e.verdict with
  | .ok q => .record [
      ("valid".toList, .bool true),
      ("name".toList, .text q.text),
      ("parts".toList, .list (q.texts.map .text)),
      ("leaf".toList, .text q.leaf.text),
      ("simple".toList, .bool q.isSimple)]
  | .error report => .record [
      ("name".toList, .text e.raw),
      ("valid".toList, .bool false),
      ("error".toList, .text report.message)]

end CheckEntry

/-! ## Names in a text -/

/-- A name found in a text, and where it was found. -/
structure ScanEntry where
  /-- The written form of the name. -/
  name : Text
  /-- Where it starts. -/
  location : Location
deriving DecidableEq

namespace ScanEntry

/-- The entry for a token, given the line starts of the text. -/
def ofToken (starts : List Nat) (t : Token) : ScanEntry :=
  ⟨t.text, Location.ofOffset starts t.start.toNat⟩

/-- The tokens whose text is none of the seen ones and that of no earlier token. -/
def firstOccurrences (seen : List Text) : List Token → List Token
  | [] => []
  | t :: ts =>
    if seen.contains t.text then firstOccurrences seen ts
    else t :: firstOccurrences (t.text :: seen) ts

/-- The entries for the tokens of a text, each name once if `unique`. -/
def ofTokens (unique : Bool) (text : Text) (tokens : List Token) : List ScanEntry :=
  let starts := Location.lineStarts text
  (if unique then firstOccurrences [] tokens else tokens).map (ofToken starts)

/-- The entry as a line. -/
def line (e : ScanEntry) : Text :=
  Text.ofNat e.location.line ++ ':' :: Text.ofNat e.location.column ++ '\t' :: e.name ++ ['\n']

/-- The entry as a record. -/
def record (e : ScanEntry) : Datum := .record [
  ("name".toList, .text e.name),
  ("line".toList, .int e.location.line),
  ("column".toList, .int e.location.column)]

end ScanEntry

/-- A report as a JSON list (`_print_json`). -/
def jsonReport (records : List Datum) : Text := Json.write 0 (.list records) ++ ['\n']

end DottedNames.Command
