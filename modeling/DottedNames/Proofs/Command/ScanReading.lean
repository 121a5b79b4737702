import DottedNames.Proofs.Command.ScanUnique
import DottedNames.Proofs.Datum.JsonReading
import DottedNames.Proofs.Text.Rows

/-!
# Reading what a scan reports

Both forms of the report of a scan tell its entries. In a line the numbers stand in front of the
first colon and between it and the first tabulator, and the rest is the name: that is so because
numbers have only digits, whatever the name is. But a line ends at a line feed, and that the lines
are those of the entries depends on the names: what is recognised in a text has no line feed in it
(`ScanEntry.lineFeed_notMem_name`). The records of the JSON list hold the same values under their
keys. So each form can be read back, and two reports of one form are equal only if they are about
the same entries.
-/

namespace DottedNames

namespace Text

variable {c : Char} {t rest : Text}

/-- What stands in front of the first `c` in the text and behind it, if there is a `c`. -/
def cutAt? (c : Char) (t : Text) : Option (Text × Text) :=
  let front := t.takeWhile (· != c)
  match t.drop front.length with
  | [] => none
  | _ :: behind => some (front, behind)

/-- The number whose decimal digits the text is. -/
def number? (t : Text) : Option Nat :=
  match readNat? t with
  | some (n, []) => some n
  | _ => none

theorem cutAt?_append (h : c ∉ t) : cutAt? c (t ++ c :: rest) = some (t, rest) := by
  have hfront : (t ++ c :: rest).takeWhile (· != c) = t := by
    refine takeWhile_append_eq (fun x hx => ?_) (by simp)
    rw [bne_iff_ne]
    rintro rfl
    exact h hx
  simp [cutAt?, hfront]

theorem number?_ofNat (n : Nat) : number? (ofNat n) = some n := by
  have hends : EndsNumber [] := nofun
  have hread : readNat? (ofNat n ++ []) = some (n, []) := readNat?_ofNat_append n hends
  rw [List.append_nil] at hread
  rw [number?, hread]

theorem notMem_ofNat (n : Nat) (h : c.isDigit = false) : c ∉ ofNat n := by
  intro hmem
  rw [isDigit_of_mem_ofNat hmem] at h
  cases h

end Text

theorem mapM_map_eq_some {α β : Type} {f : α → β} {read? : β → Option α}
    (h : ∀ x, read? (f x) = some x) (xs : List α) : (xs.map f).mapM read? = some xs := by
  induction xs with
  | nil => rfl
  | cons x xs ih =>
    rw [List.map_cons, List.mapM_cons, h, ih]
    rfl

namespace Command

namespace ScanEntry

variable {e : ScanEntry} {entries : List ScanEntry} {unique : Bool} {text : Text}

/-! ## Lines -/

/-- The line of an entry without the line feed at its end. -/
def content (e : ScanEntry) : Text :=
  Text.ofNat e.location.line ++ ':' :: (Text.ofNat e.location.column ++ '\t' :: e.name)

/-- The entry on a line, which is cut at its first tabulator and what is in front of that at its
first colon. -/
def readLine? (l : Text) : Option ScanEntry := do
  let (place, name) ← l.cutAt? '\t'
  let (line, column) ← place.cutAt? ':'
  return ⟨name, ← line.number?, ← column.number?⟩

theorem line_eq (e : ScanEntry) : e.line = e.content ++ ['\n'] := by
  simp [line, content]

theorem readLine?_content (e : ScanEntry) : readLine? e.content = some e := by
  have hplace : '\t' ∉ Text.ofNat e.location.line ++ ':' :: Text.ofNat e.location.column := by
    simp only [List.mem_append, List.mem_cons, not_or]
    exact ⟨Text.notMem_ofNat _ rfl, by decide, Text.notMem_ofNat _ rfl⟩
  have hcontent : e.content =
      (Text.ofNat e.location.line ++ ':' :: Text.ofNat e.location.column) ++ '\t' :: e.name := by
    simp [content]
  have hcolon : ':' ∉ Text.ofNat e.location.line := Text.notMem_ofNat _ rfl
  rw [readLine?, hcontent, Text.cutAt?_append hplace]
  show ((Text.ofNat e.location.line ++ ':' :: Text.ofNat e.location.column).cutAt? ':').bind _ = _
  rw [Text.cutAt?_append hcolon]
  show (Text.number? (Text.ofNat e.location.line)).bind _ = _
  rw [Text.number?_ofNat]
  show (Text.number? (Text.ofNat e.location.column)).bind _ = _
  rw [Text.number?_ofNat]
  rfl

theorem lineFeed_notMem_content (h : '\n' ∉ e.name) : '\n' ∉ e.content := by
  simp only [content, List.mem_append, List.mem_cons, not_or]
  exact ⟨Text.notMem_ofNat _ rfl, by decide, Text.notMem_ofNat _ rfl, by decide, h⟩

/-- The lines of a report are those of its entries, each with a line feed at its end. -/
theorem splitOn_flatMap_line (h : ∀ e ∈ entries, '\n' ∉ e.name) :
    (entries.flatMap line).splitOn '\n' = entries.map content ++ [[]] := by
  have hrows : entries.flatMap line = Text.rows (entries.map content) := by
    unfold Text.rows
    rw [List.flatMap_map]
    exact List.flatMap_congr fun e _ => line_eq e
  rw [hrows]
  exact Text.splitOn_rows (List.forall_mem_map.2 fun e he => lineFeed_notMem_content (h e he))

/-! ## Records -/

/-- The entry in a record. -/
def ofRecord? : Datum → Option ScanEntry
  | .record fields =>
    match Datum.field? fields "name".toList, Datum.field? fields "line".toList,
      Datum.field? fields "column".toList with
    | some (.text name), some (.int (.ofNat line)), some (.int (.ofNat column)) =>
      some ⟨name, line, column⟩
    | _, _, _ => none
  | _ => none

/-- The entries in a JSON list of records. -/
def readJson? (t : Text) : Option (List ScanEntry) :=
  match Json.read? t with
  | some (.list records) => records.mapM ofRecord?
  | _ => none

theorem ofRecord?_record (e : ScanEntry) : ofRecord? e.record = some e := rfl

theorem whole_record (e : ScanEntry) : Json.Whole e.record := by
  refine .record fun f hf => ?_
  simp only [List.mem_cons, List.not_mem_nil, or_false] at hf
  rcases hf with rfl | rfl | rfl
  · exact .text _
  · exact .int _
  · exact .int _

theorem read?_jsonReport (entries : List ScanEntry) :
    Json.read? (jsonReport (entries.map record)) = some (.list (entries.map record)) := by
  have hwhole : Json.Whole (.list (entries.map record)) := by
    refine .list fun d hd => ?_
    obtain ⟨e, -, rfl⟩ := List.mem_map.1 hd
    exact whole_record e
  exact Json.read?_write_append hwhole (List.forall_mem_singleton.2 rfl)

theorem readJson?_jsonReport (entries : List ScanEntry) :
    readJson? (jsonReport (entries.map record)) = some entries := by
  rw [readJson?, read?_jsonReport]
  exact mapM_map_eq_some ofRecord?_record entries

/-- Entries without line feeds in their names are told by either form of their report. -/
theorem eq_of_report_eq {entries' : List ScanEntry} {json : Bool}
    (h : ∀ e ∈ entries, '\n' ∉ e.name) (h' : ∀ e ∈ entries', '\n' ∉ e.name)
    (heq : report json entries = report json entries') : entries = entries' := by
  cases json with
  | false =>
    have hlines : entries.map content ++ [[]] = entries'.map content ++ [[]] := by
      rw [← splitOn_flatMap_line h, ← splitOn_flatMap_line h']
      exact congrArg (List.splitOn '\n') heq
    have hread := mapM_map_eq_some readLine?_content entries
    rw [List.append_cancel_right hlines, mapM_map_eq_some readLine?_content] at hread
    exact (Option.some.inj hread).symm
  | true =>
    have hread : readJson? (jsonReport (entries.map record)) = some entries' := by
      rw [show jsonReport (entries.map record) = jsonReport (entries'.map record) from heq,
        readJson?_jsonReport]
    rw [readJson?_jsonReport] at hread
    exact Option.some.inj hread

/-! ## The names that are reported -/

theorem mem_ofTokens_false {tokens : List Token} (h : e ∈ ofTokens unique text tokens) :
    e ∈ ofTokens false text tokens := by
  cases unique with
  | false => exact h
  | true =>
    rw [ofTokens_true] at h
    exact sublist_firstsBy.subset h

theorem name_mem_dottedNames (h : e ∈ ofTokens unique text (Token.scan text)) :
    e.name ∈ Grammar.dottedNames := by
  have hentry := mem_ofTokens_false h
  rw [ofTokens_false] at hentry
  obtain ⟨t, ht, rfl⟩ := List.mem_map.1 hentry
  exact Token.mem_dottedNames_of_mem_scan ht

theorem lineFeed_notMem_name (h : e ∈ ofTokens unique text (Token.scan text)) :
    '\n' ∉ e.name := by
  intro hmem
  rcases Grammar.isNameChar_or_dot_of_mem_dottedNames (name_mem_dottedNames h) _ hmem with
    hchar | hdot
  · exact absurd hchar (by decide)
  · exact absurd hdot (by decide)

end ScanEntry

open ScanEntry

/-- Both forms of what a scan reports are read back as its entries. The text form has one line for
each entry, and behind the last line feed there is nothing. A line is cut at its first tabulator and
its first colon, and the pieces are the name and the two numbers of the entry. The JSON form is a
list of the records of the entries. So a report of either form is the report of no other entries. -/
theorem Invocation.perform_scan_reading {i : Invocation} {path : Option Text} {text : Text}
    (h : i.source path = .ok text) (s : Session) (unique : Bool) (mode : Option LogMode) :
    let entries := ofTokens unique text (Token.scan text)
    let plain := (i.perform s (.scan path unique false mode)).output
    let json := (i.perform s (.scan path unique true mode)).output
    (∃ lines, plain.splitOn '\n' = lines ++ [[]] ∧ lines.length = entries.length ∧
      lines.mapM readLine? = some entries) ∧
    Json.read? json = some (.list (entries.map record)) ∧
    readJson? json = some entries ∧
    ∀ (unique' : Bool) (text' : Text),
      let entries' := ofTokens unique' text' (Token.scan text')
      (plain = report false entries' → entries = entries') ∧
        (json = report true entries' → entries = entries') := by
  intro entries plain json
  have hnames : ∀ e ∈ entries, '\n' ∉ e.name := fun e => lineFeed_notMem_name
  have hplain : plain = report false entries := output_perform_scan h s unique false mode
  have hjson : json = report true entries := output_perform_scan h s unique true mode
  rw [hplain, hjson]
  refine ⟨⟨entries.map content, splitOn_flatMap_line hnames, List.length_map _,
    mapM_map_eq_some readLine?_content entries⟩, read?_jsonReport entries,
    readJson?_jsonReport entries, fun unique' text' => ?_⟩
  intro entries'
  have hnames' : ∀ e ∈ entries', '\n' ∉ e.name := fun e => lineFeed_notMem_name
  exact ⟨eq_of_report_eq hnames hnames', eq_of_report_eq hnames hnames'⟩

/-- Two names in two lines, the first of which is in both. -/
theorem Invocation.perform_scan_reading_two_lines :
    let text : Text := "a.b \"a\"\n:a.b".toList
    let i : Invocation := {
      arguments := []
      input := Utf8.encode text
      environment := none
      moment := { date := ⟨2000, 1, 1⟩, time := ⟨0, 0, 0, 0⟩ }
      installed := true
      read := fun _ => .error .missing }
    let entries : List ScanEntry := [⟨"a.b".toList, ⟨1, 1⟩⟩, ⟨['a'], ⟨1, 6⟩⟩]
    i.source none = .ok text ∧
      (∃ lines, (i.perform (.initial none) (.scan none true false none)).output.splitOn '\n' =
        lines ++ [[]] ∧ lines.length = 2 ∧ lines.mapM readLine? = some entries) ∧
      readJson? (i.perform (.initial none) (.scan none true true none)).output = some entries := by
  intro text i entries
  have hsource : i.source none = .ok text := source_of_input rfl
  have hentries : ofTokens true text (Token.scan text) = entries := by
    decide +kernel
  obtain ⟨hlines, -, hjson, -⟩ := perform_scan_reading hsource (.initial none) true none
  rw [hentries] at hlines hjson
  exact ⟨hsource, hlines, hjson⟩

end Command

end DottedNames
