import DottedNames.Command.Run
import DottedNames.Proofs.Datum.JsonReading
import DottedNames.Proofs.QualName.Reading
import DottedNames.Proofs.Text.Quoting

/-!
# What a check reports

A check reports one finding for each of its texts, in their order: the shape of the name that the
text spells, or the message of the fault with which reading it is refused. Both forms of the report
are read back here. The records of the JSON list hold the findings under their keys, and the lines
hold them between tabulators; a line is cut with the help of the text it is about, since that text
may itself have tabulators and line feeds. Both readers give the findings of the texts, so neither
form says more than the other.
-/

namespace DottedNames.Command

/-- The shape of a name, as far as both forms of a report tell it. -/
structure Shape where
  /-- The text of the last segment. -/
  leaf : Text
  /-- The number of segments. -/
  parts : Nat
deriving DecidableEq

/-- What a report says about a text: the shape of the name it spells, or what is wrong with it. -/
abbrev Finding := Except Text Shape

namespace Finding

/-- The finding about a text, which depends on nothing but how the text is read as a name. -/
def ofText (t : Text) : Finding :=
  match (Operand.datum (.text t)).readName with
  | .ok q => .ok ⟨q.leaf.text, q.length⟩
  | .error f => .error f.message

/-! ## Reading lines -/

/-- The rest of a line, and what follows the line. -/
def readLineEnd? (t : Text) : Option (Text × Text) :=
  let l := t.takeWhile (· != '\n')
  match t.drop l.length with
  | '\n' :: rest => some (l, rest)
  | _ => none

/-- The number of segments in words, and what follows it. -/
def readSize? (t : Text) : Option (Nat × Text) :=
  match Text.readNat? t with
  | some (n, rest) => (rest.dropPrefix? " parts".toList).map fun rest => (n, rest)
  | none => (t.dropPrefix? "simple".toList).map fun rest => (1, rest)

/-- The finding on the line about a text, and what follows the line. -/
def readLine? (name t : Text) : Option (Finding × Text) :=
  (t.dropPrefix? name).bind fun t =>
    match t.dropPrefix? "\tok\t".toList with
    | some t =>
      (readSize? t).bind fun (parts, t) => (t.dropPrefix? "\tleaf=".toList).bind fun t =>
        (readLineEnd? t).map fun (leaf, rest) => (.ok ⟨leaf, parts⟩, rest)
    | none =>
      (t.dropPrefix? "\tinvalid\t".toList).bind fun t =>
        (readLineEnd? t).map fun (message, rest) => (.error message, rest)

/-- The findings on the lines about some texts, if the lines are nothing else. -/
def readLines? : List Text → Text → Option (List Finding)
  | [], t => if t.isEmpty then some [] else none
  | name :: names, t =>
    (readLine? name t).bind fun (finding, rest) => (readLines? names rest).map (finding :: ·)

/-! ## Reading records -/

/-- The value of a record under a key. -/
def valueAt? (key : String) : Datum → Option Datum
  | .record fields => Datum.field? fields key.toList
  | _ => none

/-- The finding in a record. -/
def ofRecord? (d : Datum) : Option Finding :=
  match valueAt? "valid" d, valueAt? "leaf" d, valueAt? "parts" d, valueAt? "error" d with
  | some (.bool true), some (.text leaf), some (.list parts), _ => some (.ok ⟨leaf, parts.length⟩)
  | some (.bool false), _, _, some (.text message) => some (.error message)
  | _, _, _, _ => none

/-- The findings in a JSON list of records. -/
def readJson? (t : Text) : Option (List Finding) :=
  match Json.read? t with
  | some (.list records) => records.mapM ofRecord?
  | _ => none

variable {t rest : Text}

theorem readLineEnd?_append (h : '\n' ∉ t) : readLineEnd? (t ++ '\n' :: rest) = some (t, rest) := by
  have hline : (t ++ '\n' :: rest).takeWhile (· != '\n') = t := by
    refine Text.takeWhile_append_eq (fun c hc => ?_) (by simp)
    rw [bne_iff_ne]
    rintro rfl
    exact h hc
  simp [readLineEnd?, hline]

theorem dropPrefix?_append (u t : Text) : (u ++ t).dropPrefix? u = some t :=
  List.dropPrefix?_append_of_beq t (beq_self_eq_true u)

variable {q : QualName} {e : InvalidIdentifier}

theorem ofText_of_parse_eq_ok (h : QualName.parse t = .ok q) :
    ofText t = .ok ⟨q.leaf.text, q.length⟩ := by
  rw [ofText, Operand.readName_eq_ok_iff.2 h]

theorem ofText_of_parse_eq_error (h : QualName.parse t = .error e) :
    ofText t = .error e.message := by
  rw [ofText, Operand.readName_eq_error_iff.2 ⟨e, h, rfl⟩]
  rfl

/-! ## The lines tell the findings -/

/-- The number of segments is read from its words. -/
theorem readSize?_sizeWords_append (q : QualName) (rest : Text) :
    readSize? (CheckEntry.sizeWords q ++ rest) = some (q.length, rest) := by
  unfold CheckEntry.sizeWords
  split
  · next hsimple =>
    have hlength : q.length = 1 := by simpa [QualName.isSimple] using hsimple
    have hword : Text.readNat? ("simple".toList ++ rest) = none :=
      Text.readNat?_cons_of_not_isDigit rfl
    rw [readSize?, hword, hlength]
    simp only [dropPrefix?_append, Option.map_some]
  · have hnumber : Text.readNat? (Text.ofNat q.length ++ (" parts".toList ++ rest)) =
        some (q.length, " parts".toList ++ rest) :=
      Text.readNat?_ofNat_append q.length (Text.endsNumber_cons.2 rfl)
    rw [readSize?, List.append_assoc, hnumber]
    simp only [dropPrefix?_append, Option.map_some]

/-- The line about a text is read as the finding about it, whatever follows. -/
theorem readLine?_line_append (t rest : Text) :
    readLine? t ((CheckEntry.ofText t).line ++ rest) = some (ofText t, rest) := by
  cases h : QualName.parse t with
  | ok q =>
    have hname : t = q.text := QualName.parse_eq_ok_iff_eq_text.1 h
    have hline : (CheckEntry.ofText t).line ++ rest =
        t ++ ("\tok\t".toList ++ (CheckEntry.sizeWords q ++
          ("\tleaf=".toList ++ (q.leaf.text ++ '\n' :: rest)))) := by
      simp [CheckEntry.line, CheckEntry.ofText, h, ← hname]
    have hleaf : '\n' ∉ q.leaf.text := by
      intro hmem
      exact absurd (Segment.isNameChar_of_mem_text hmem) (by decide)
    rw [hline, ofText_of_parse_eq_ok h, readLine?]
    simp only [dropPrefix?_append, Option.bind_some, readSize?_sizeWords_append, Option.map_some,
      readLineEnd?_append hleaf]
  | error e =>
    have hline : (CheckEntry.ofText t).line ++ rest =
        t ++ ("\tinvalid\t".toList ++ (e.message ++ '\n' :: rest)) := by
      simp [CheckEntry.line, CheckEntry.ofText, h]
    -- Behind the text itself the two kinds of line differ at once.
    have hmark : ("\tinvalid\t".toList ++ (e.message ++ '\n' :: rest)).dropPrefix?
        "\tok\t".toList = none := rfl
    rw [hline, ofText_of_parse_eq_error h, readLine?]
    simp only [dropPrefix?_append, Option.bind_some, hmark, Option.map_some,
      readLineEnd?_append e.printable_message.lineFeed_notMem]

/-- The lines of a report are read as the findings about its texts, one line after the other. -/
theorem readLines?_flatMap_line (names : List Text) :
    readLines? names ((names.map CheckEntry.ofText).flatMap CheckEntry.line) =
      some (names.map ofText) := by
  induction names with
  | nil => rfl
  | cons t names ih =>
    rw [List.map_cons, List.flatMap_cons, readLines?, readLine?_line_append, Option.bind_some]
    simp only [ih, Option.map_some, List.map_cons]

/-! ## The records tell the findings -/

/-- The record is about a text that spells the name. -/
structure TellsName (t : Text) (q : QualName) (d : Datum) : Prop where
  /-- The text is called valid. -/
  valid : valueAt? "valid" d = some (.bool true)
  /-- The name is the text itself. -/
  name : valueAt? "name" d = some (.text t)
  /-- The parts are the texts of the segments. -/
  parts : valueAt? "parts" d = some (.list (q.texts.map .text))
  /-- With dots between them they are the text again. -/
  join_parts : Text.join ['.'] q.texts = t
  /-- The leaf is the last part. -/
  leaf : ∃ u, q.texts.getLast? = some u ∧ valueAt? "leaf" d = some (.text u)
  /-- The name is simple if there is exactly one part. -/
  simple : valueAt? "simple" d = some (.bool (q.texts.length == 1))

/-- The record is about a text that is refused with the fault. -/
structure TellsFault (t : Text) (f : Fault) (d : Datum) : Prop where
  /-- The text is called invalid. -/
  valid : valueAt? "valid" d = some (.bool false)
  /-- The name is the text itself. -/
  name : valueAt? "name" d = some (.text t)
  /-- The error is the message of the fault. -/
  error : valueAt? "error" d = some (.text f.message)

/-- The record says of a text what comes of reading it as a name. -/
structure Describes (t : Text) (d : Datum) : Prop where
  /-- What it says if a name is read. -/
  ok : ∀ q, (Operand.datum (.text t)).readName = .ok q → TellsName t q d
  /-- What it says if reading is refused. -/
  error : ∀ f, (Operand.datum (.text t)).readName = .error f → TellsFault t f d

/-- The record of a report describes its text. -/
theorem describes_record (t : Text) : Describes t (CheckEntry.ofText t).record := by
  constructor
  · intro q hq
    have hparse : QualName.parse t = .ok q := Operand.readName_eq_ok_iff.1 hq
    obtain rfl : t = q.text := QualName.parse_eq_ok_iff_eq_text.1 hparse
    rw [CheckEntry.ofText, hparse]
    refine ⟨rfl, rfl, rfl, rfl, ⟨q.leaf.text, q.getLast?_texts, rfl⟩, ?_⟩
    show some (Datum.bool (q.segments.length == 1)) = _
    rw [QualName.texts, List.length_map]
  · intro f hf
    obtain ⟨e, hparse, rfl⟩ := Operand.readName_eq_error_iff.1 hf
    rw [CheckEntry.ofText, hparse]
    exact ⟨rfl, rfl, rfl⟩

/-- A record that describes a text holds the finding about it. -/
theorem Describes.ofRecord?_eq {d : Datum} (h : Describes t d) :
    ofRecord? d = some (ofText t) := by
  unfold ofRecord? ofText
  cases hread : (Operand.datum (.text t)).readName with
  | ok q =>
    have hname := h.ok q hread
    obtain ⟨u, hlast, hleaf⟩ := hname.leaf
    obtain rfl : q.leaf.text = u := Option.some.inj ((q.getLast?_texts).symm.trans hlast)
    simp only [hname.valid, hname.parts, hleaf, List.length_map, QualName.texts, QualName.length]
  | error f =>
    have hfault := h.error f hread
    simp only [hfault.valid, hfault.error]

/-- The records of a report hold the findings about its texts, one record after the other. -/
theorem mapM_ofRecord?_record (names : List Text) :
    (names.map fun t => (CheckEntry.ofText t).record).mapM ofRecord? = some (names.map ofText) := by
  induction names with
  | nil => rfl
  | cons t names ih =>
    rw [List.map_cons, List.mapM_cons, (describes_record t).ofRecord?_eq, ih]
    rfl

theorem whole_record (e : CheckEntry) : Json.Whole e.record := by
  unfold CheckEntry.record
  split
  · refine .record fun f hf => ?_
    simp only [List.mem_cons, List.not_mem_nil, or_false] at hf
    rcases hf with rfl | rfl | rfl | rfl | rfl
    · exact .bool true
    · exact .text _
    · refine .list fun d hd => ?_
      obtain ⟨u, -, rfl⟩ := List.mem_map.1 hd
      exact .text u
    · exact .text _
    · exact .bool _
  · refine .record fun f hf => ?_
    simp only [List.mem_cons, List.not_mem_nil, or_false] at hf
    rcases hf with rfl | rfl | rfl
    · exact .text _
    · exact .bool false
    · exact .text _

end Finding

namespace CheckEntry

variable {t : Text}

/-- An entry is valid if its text is read as a name. -/
theorem isValid_ofText_iff :
    (ofText t).isValid = true ↔ ∃ q, (Operand.datum (.text t)).readName = .ok q := by
  simp only [Operand.readName_eq_ok_iff]
  unfold isValid ofText
  cases QualName.parse t <;> simp [Except.toBool]

theorem not_isValid_ofText_iff :
    ¬(ofText t).isValid = true ↔ ∃ f, (Operand.datum (.text t)).readName = .error f := by
  rw [isValid_ofText_iff]
  cases (Operand.datum (.text t)).readName <;> simp

end CheckEntry

open Finding

/-- A check reports on each of its texts by itself and in order. The JSON list has the record of
each text, which calls the text valid if it is read as a name and then shows the name, and otherwise
shows the message of the refusal. The exit code is zero if every text is read as a name, and one if
some text is refused. The lines and the records tell the same findings. -/
theorem Invocation.perform_check_report (i : Invocation) (s : Session) (names : List Text)
    (mode : Option LogMode) :
    Json.read? (i.perform s (.check names true mode)).output =
      some (.list (names.map fun t => (CheckEntry.ofText t).record)) ∧
    (∀ t, Describes t (CheckEntry.ofText t).record) ∧
    (∀ json, (i.perform s (.check names json mode)).exit = 0 ↔
      ∀ t ∈ names, ∃ q, (Operand.datum (.text t)).readName = .ok q) ∧
    (∀ json, (i.perform s (.check names json mode)).exit = 1 ↔
      ∃ t ∈ names, ∃ f, (Operand.datum (.text t)).readName = .error f) ∧
    readLines? names (i.perform s (.check names false mode)).output = some (names.map ofText) ∧
    readJson? (i.perform s (.check names true mode)).output = some (names.map ofText) := by
  have hread : Json.read? (i.perform s (.check names true mode)).output =
      some (.list (names.map fun t => (CheckEntry.ofText t).record)) := by
    have hwhole : Json.Whole (.list (names.map fun t => (CheckEntry.ofText t).record)) := by
      refine .list fun d hd => ?_
      obtain ⟨t, -, rfl⟩ := List.mem_map.1 hd
      exact whole_record (CheckEntry.ofText t)
    show Json.read? (Json.write 0 (.list ((names.map CheckEntry.ofText).map CheckEntry.record)) ++
      ['\n']) = _
    rw [List.map_map]
    exact Json.read?_write_append hwhole (List.forall_mem_singleton.2 rfl)
  have hexit : ∀ json, (i.perform s (.check names json mode)).exit =
      if ∀ t ∈ names, (CheckEntry.ofText t).isValid = true then 0 else 1 := by
    intro json
    show (if (names.map CheckEntry.ofText).all CheckEntry.isValid then 0 else 1) = _
    simp only [List.all_eq_true, List.forall_mem_map]
  refine ⟨hread, describes_record, fun json => ?_, fun json => ?_, readLines?_flatMap_line names,
    ?_⟩
  · simp only [hexit, ← CheckEntry.isValid_ofText_iff, ite_eq_left_iff, Nat.one_ne_zero, imp_false,
      not_not]
  · simp only [hexit, ← CheckEntry.not_isValid_ofText_iff, ite_eq_right_iff, Nat.zero_ne_one,
      imp_false, not_forall, exists_prop]
  · rw [readJson?, hread]
    exact mapM_ofRecord?_record names

end DottedNames.Command
