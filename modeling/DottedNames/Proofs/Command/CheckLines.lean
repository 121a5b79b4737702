import DottedNames.Proofs.Command.CheckReport
import DottedNames.Proofs.Text.Rows

/-!
# The lines of a check

A check writes one row for each of its texts, in their order. The row starts with the text itself
and then says whether the text is read as a name; what it says has no line feed, but the text may
have some. So each text has exactly one line, in which its verdict can be found, if and only if no
text has a line feed (`Invocation.perform_check_lineSafe_iff`). A text that has one is never read as
a name, and its row is cut into several lines, which a reader of lines takes for those of other
texts.
-/

namespace DottedNames.Command

/-- The line says whether the text is read as a name. -/
structure TellsVerdict (t l : Text) : Prop where
  /-- The text is called good if it is read. -/
  ok : (t ++ "\tok".toList) <+: l ↔ ∃ q, (Operand.datum (.text t)).readName = .ok q
  /-- The text is called bad if it is refused. -/
  invalid : (t ++ "\tinvalid".toList) <+: l ↔ ∃ f, (Operand.datum (.text t)).readName = .error f

/-- Each text has exactly one line of a report, which says whether the text is read as a name. -/
structure LineSafe (names : List Text) (output : Text) : Prop where
  /-- There are as many line feeds as texts. -/
  count_eq : output.count '\n' = names.length
  /-- The lines tell the verdicts on the texts, in their order. -/
  tells : ∀ (k : Nat) (t : Text), names[k]? = some t →
    ∃ l, (output.splitOn '\n')[k]? = some l ∧ TellsVerdict t l

namespace CheckEntry

variable {t : Text} {names : List Text}

/-- What the row of an entry says behind the text. -/
def remark (e : CheckEntry) : Text :=
  match e.verdict with
  | .ok q => "ok\t".toList ++ (sizeWords q ++ ("\tleaf=".toList ++ q.leaf.text))
  | .error report => "invalid\t".toList ++ report.message

/-- The row of a text without the line feed at its end. -/
def row (t : Text) : Text := t ++ '\t' :: (ofText t).remark

theorem line_ofText (t : Text) : (ofText t).line = row t ++ ['\n'] := by
  unfold row remark line
  cases h : QualName.parse t with
  | ok q =>
    have hname : t = q.text := QualName.parse_eq_ok_iff_eq_text.1 h
    simp [ofText, h, ← hname]
  | error e => simp [ofText, h]

theorem flatMap_line_eq_rows (names : List Text) :
    (names.map ofText).flatMap line = Text.rows (names.map row) := by
  unfold Text.rows
  rw [List.flatMap_map, List.flatMap_map]
  exact List.flatMap_congr fun t _ => line_ofText t

theorem lineFeed_notMem_sizeWords (q : QualName) : '\n' ∉ sizeWords q := by
  unfold sizeWords
  split
  · decide
  · rw [List.mem_append, not_or]
    exact ⟨fun hmem => absurd (Text.isDigit_of_mem_ofNat hmem) (by decide), by decide⟩

/-- What is said about a text is said in one line. -/
theorem lineFeed_notMem_remark (e : CheckEntry) : '\n' ∉ e.remark := by
  unfold remark
  split
  · next q _ =>
    have hok : '\n' ∉ "ok\t".toList := by decide
    have hword : '\n' ∉ "\tleaf=".toList := by decide
    have hleaf : '\n' ∉ q.leaf.text := fun hmem =>
      absurd (Segment.isNameChar_of_mem_text hmem) (by decide)
    simp only [List.mem_append, not_or]
    exact ⟨hok, lineFeed_notMem_sizeWords q, hword, hleaf⟩
  · next report _ =>
    have hinvalid : '\n' ∉ "invalid\t".toList := by decide
    rw [List.mem_append, not_or]
    exact ⟨hinvalid, report.printable_message.lineFeed_notMem⟩

/-- The only line feeds of a row are those of its text. -/
theorem count_row (t : Text) : (row t).count '\n' = t.count '\n' := by
  have hremark : (ofText t).remark.count '\n' = 0 :=
    List.count_eq_zero.2 (lineFeed_notMem_remark _)
  unfold row
  rw [List.count_append, List.count_cons_of_ne (by decide), hremark, Nat.add_zero]

/-! ## Verdicts -/

theorem prefix_row_iff {u : Text} : (t ++ '\t' :: u) <+: row t ↔ u <+: (ofText t).remark := by
  unfold row
  rw [List.prefix_append_right_inj, List.cons_prefix_cons]
  exact and_iff_right rfl

theorem prefix_remark_of_ok {q : QualName} (h : QualName.parse t = .ok q) :
    "ok".toList <+: (ofText t).remark := by
  unfold remark ofText
  rw [h]
  exact ⟨_, rfl⟩

theorem prefix_remark_of_error {e : InvalidIdentifier} (h : QualName.parse t = .error e) :
    "invalid".toList <+: (ofText t).remark := by
  unfold remark ofText
  rw [h]
  exact ⟨_, rfl⟩

/-- Behind the text itself a row says whether the text is read as a name. -/
theorem tellsVerdict_row (t : Text) : TellsVerdict t (row t) := by
  -- The two words differ at once, so a row cannot say both.
  have hwords : ¬ ("ok".toList <+: "invalid".toList ∨ "invalid".toList <+: "ok".toList) := by decide
  cases h : QualName.parse t with
  | ok q =>
    have hread := Operand.readName_eq_ok_iff.2 h
    have hok := prefix_remark_of_ok h
    refine ⟨iff_of_true (prefix_row_iff.2 hok) ⟨q, hread⟩, iff_of_false (fun hinvalid => ?_) ?_⟩
    · exact hwords (List.prefix_or_prefix_of_prefix hok (prefix_row_iff.1 hinvalid))
    · rintro ⟨f, hf⟩
      rw [hread] at hf
      cases hf
  | error e =>
    have hread := Operand.readName_eq_error_iff.2 ⟨e, h, rfl⟩
    have hinvalid := prefix_remark_of_error h
    refine ⟨iff_of_false (fun hok => ?_) ?_, iff_of_true (prefix_row_iff.2 hinvalid) ⟨_, hread⟩⟩
    · exact hwords (List.prefix_or_prefix_of_prefix (prefix_row_iff.1 hok) hinvalid)
    · rintro ⟨q, hq⟩
      rw [hread] at hq
      cases hq

end CheckEntry

open CheckEntry

variable {names : List Text}

/-- A report is safe if none of its texts has a line feed, for its rows are its lines then, and only
if so, for every line feed of a text is one too many. -/
theorem lineSafe_rows_iff :
    LineSafe names (Text.rows (names.map row)) ↔ ∀ t ∈ names, '\n' ∉ t := by
  have hrows : (∀ l ∈ names.map row, '\n' ∉ l) ↔ ∀ t ∈ names, '\n' ∉ t := by
    simp only [List.forall_mem_map, ← List.count_eq_zero, count_row]
  rw [← hrows]
  constructor
  · intro h
    apply Text.count_rows_eq_length_iff.1
    rw [List.length_map]
    exact h.count_eq
  · intro h
    have hcount := Text.count_rows_eq_length_iff.2 h
    rw [List.length_map] at hcount
    refine ⟨hcount, fun k t hk => ⟨row t, ?_, tellsVerdict_row t⟩⟩
    rw [Text.splitOn_rows h, List.getElem?_append_left, List.getElem?_map, hk]
    · rfl
    · rw [List.length_map]
      exact (List.getElem?_eq_some_iff.1 hk).1

theorem lineFeed_notMem_of_readName {t : Text} {q : QualName}
    (h : (Operand.datum (.text t)).readName = .ok q) : '\n' ∉ t := by
  rw [Operand.readName_eq_ok_iff_eq_text.1 h]
  intro hmem
  rcases Grammar.mem_join hmem with hdot | ⟨p, hp, hmem⟩
  · exact absurd hdot (by decide)
  · obtain ⟨c, -, rfl⟩ := List.mem_map.1 hp
    exact absurd (Segment.isNameChar_of_mem_text hmem) (by decide)

/-- A check writes one row for each of its texts, in their order. The row starts with the text and
a tabulator, then comes the verdict on the text, and the only line feeds in front of the one at the
end are those of the text. So every text has exactly one line, which tells the verdict on it, if and
only if no text has a line feed. Among the texts that are read as names none has. -/
theorem Invocation.perform_check_lineSafe_iff (i : Invocation) (s : Session) (names : List Text)
    (mode : Option LogMode) :
    (LineSafe names (i.perform s (.check names false mode)).output ↔ ∀ t ∈ names, '\n' ∉ t) ∧
    (i.perform s (.check names false mode)).output = Text.rows (names.map row) ∧
    (∀ t, TellsVerdict t (row t) ∧ (row t).count '\n' = t.count '\n') ∧
    (∀ t q, (Operand.datum (.text t)).readName = .ok q → '\n' ∉ t) := by
  have houtput : (i.perform s (.check names false mode)).output = Text.rows (names.map row) :=
    flatMap_line_eq_rows names
  refine ⟨?_, houtput, fun t => ⟨tellsVerdict_row t, count_row t⟩,
    fun t q => lineFeed_notMem_of_readName⟩
  rw [houtput]
  exact lineSafe_rows_iff

/-- A check of one text that has a line feed in front of `b`, a tabulator and `ok` has two lines,
and a reader of lines takes the second one for the verdict on `b`. -/
theorem Invocation.exists_perform_check_not_lineSafe :
    ¬∀ (i : Invocation) (s : Session) (names : List Text) (mode : Option LogMode),
      names ≠ [] → LineSafe names (i.perform s (.check names false mode)).output := by
  intro h
  let i : Invocation := {
    arguments := ["check".toList, "1\nb\tok".toList]
    input := []
    environment := none
    moment := { date := ⟨2000, 1, 1⟩, time := ⟨0, 0, 0, 0⟩ }
    installed := true
    read := fun _ => .error .missing }
  have hsafe := h i (.initial none) ["1\nb\tok".toList] none (List.cons_ne_nil _ _)
  have houtput : (i.perform (.initial none) (.check ["1\nb\tok".toList] false none)).output =
      Text.rows (["1\nb\tok".toList].map row) := flatMap_line_eq_rows _
  rw [houtput] at hsafe
  exact lineSafe_rows_iff.1 hsafe _ (List.mem_singleton_self _) (by decide)

end DottedNames.Command
