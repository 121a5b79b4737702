import DottedNames.Proofs.Command.LogMode
import DottedNames.Proofs.Log.Line
import DottedNames.Proofs.Log.Output
import DottedNames.Proofs.QualName.Reading
import DottedNames.Proofs.Text.QuotedReading
import DottedNames.Proofs.Text.Rows

/-!
# What a check logs

A check logs one record for each text that it refuses, in the order of the texts, and nothing for
the others. The record quotes the text and shows the message of the refusal, so whatever characters
the text has, its line has printable characters only; nothing in it is taken for markup or for a
placeholder, and the text can be read back from it. The records are at the level for information, so
their lines are written unless the mode is the quietest one (`Invocation.run_check_log`).
-/

namespace DottedNames

namespace Command

/-- The texts that are refused as names, in order, and the faults they are refused with. -/
def refusals (names : List Text) : List (Text × Fault) :=
  names.filterMap fun t =>
    match (Operand.datum (.text t)).readName with
    | .ok _ => none
    | .error f => some (t, f)

/-- The record about a refusal. -/
def refusalRecord (r : Text × Fault) : LogRecord where
  level := .info
  message := "rejected ".toList ++ r.1.quoted ++ ": ".toList ++ r.2.message
  bindings := LogRecord.ownBindings (Session.action "check")

/-- The line about a refusal without the line feed at its end. -/
def refusalLine (m : Moment) (mode : LogMode) (r : Text × Fault) : Text :=
  m.time.text ++ (" fqnkit:check ".toList ++ ((if mode = .debug then "[INFO] ".toList else []) ++
    ("rejected ".toList ++ (r.1.quoted ++ (": ".toList ++ r.2.message)))))

variable {i : Invocation} {s : Session} {names : List Text} {mode : Option LogMode}
  {m : LogMode} {t : Text} {f : Fault} {r r' : Text × Fault}

/-! ## Refusals -/

theorem mem_refusals_iff :
    (t, f) ∈ refusals names ↔ t ∈ names ∧ (Operand.datum (.text t)).readName = .error f := by
  unfold refusals
  rw [List.mem_filterMap]
  constructor
  · rintro ⟨u, hu, heq⟩
    split at heq
    · cases heq
    · next hread =>
      cases heq
      exact ⟨hu, hread⟩
  · rintro ⟨ht, hread⟩
    exact ⟨t, ht, by rw [hread]⟩

theorem refusals_cons_of_ok {q : QualName} (h : QualName.parse t = .ok q) :
    refusals (t :: names) = refusals names := by
  unfold refusals
  rw [List.filterMap_cons, Operand.readName_eq_ok_iff.2 h]

theorem refusals_cons_of_error {e : InvalidIdentifier} (h : QualName.parse t = .error e) :
    refusals (t :: names) = (t, .invalidIdentifier e) :: refusals names := by
  unfold refusals
  rw [List.filterMap_cons, Operand.readName_eq_error_iff.2 ⟨e, h, rfl⟩]

/-- A fault that a text is refused with has a printable message. -/
theorem printable_message_of_mem_refusals (h : r ∈ refusals names) : r.2.message.Printable := by
  obtain ⟨t, f⟩ := r
  obtain ⟨e, -, rfl⟩ := Operand.readName_eq_error_iff.1 (mem_refusals_iff.1 h).2
  exact e.printable_message

/-! ## Records -/

/-- A check hands the records about its refusals to the hub, in order. -/
theorem logRejections_map_ofText (hs : s.initialized = true) (names : List Text) :
    logRejections s (names.map CheckEntry.ofText) =
      ((refusals names).map refusalRecord).flatMap s.emit := by
  induction names with
  | nil => rfl
  | cons t names ih =>
    rw [List.map_cons]
    unfold logRejections
    cases h : QualName.parse t with
    | ok q =>
      rw [refusals_cons_of_ok h]
      simp only [CheckEntry.ofText, h]
      exact ih
    | error e =>
      rw [refusals_cons_of_error h, List.map_cons, List.flatMap_cons, ← ih]
      simp only [CheckEntry.ofText, h, Session.log, Session.ensure_of_initialized hs]
      rfl

/-- Where a mode is in force and its sink is there, the records about refusals are accepted unless
the mode is the quietest one. -/
theorem flatMap_emit_refusals (hs : s.Consistent) (hsinks : s.hub.sinks ≠ [])
    (rs : List (Text × Fault)) :
    (rs.map refusalRecord).flatMap s.emit =
      if s.mode = .warning then [] else rs.map fun r => ⟨s.mode, refusalRecord r⟩ := by
  have hshown : ∀ r ∈ rs.map refusalRecord,
      (LogRecord.isOwn r.bindings && s.mode.shows r.level) = s.mode.shows .info := by
    refine List.forall_mem_map.2 fun r _ => ?_
    have hown : LogRecord.isOwn (LogRecord.ownBindings (Session.action "check")) = true := by decide
    show (LogRecord.isOwn (LogRecord.ownBindings (Session.action "check")) && _) = _
    rw [hown, Bool.true_and]
    rfl
  rw [hs.flatMap_emit hsinks, List.filter_congr hshown]
  split
  · next hmode =>
    have hquiet : s.mode.shows .info = false := by rw [hmode]; rfl
    rw [hquiet, List.filter_false]
    rfl
  · next hmode =>
    have hloud : s.mode.shows .info = true := by
      cases hm : s.mode with
      | warning => exact absurd hm hmode
      | info => rfl
      | debug => rfl
    rw [hloud, List.filter_true, List.map_map]
    rfl

/-! ## Lines -/

theorem origin_refusalRecord (r : Text × Fault) :
    LogRecord.origin (refusalRecord r).bindings = "fqnkit:check".toList := by
  have horigin := LogRecord.origin_ownBindings_action (by decide : "check".toList ≠ [])
  have hjoined : "fqnkit:".toList ++ "check".toList = "fqnkit:check".toList := by decide
  exact horigin.trans hjoined

theorem heading_refusalRecord (t : Moment) (m : LogMode) (r : Text × Fault) :
    Written.heading t ⟨m, refusalRecord r⟩ ++ (refusalRecord r).message = refusalLine t m r := by
  have hblanks : " fqnkit:check ".toList = ' ' :: ("fqnkit:check".toList ++ [' ']) := by decide
  have hlevel : (if m = .debug then '[' :: Level.info.name ++ [']', ' '] else []) =
      if m = .debug then "[INFO] ".toList else [] := by
    cases m <;> decide
  unfold Written.heading refusalLine
  rw [hblanks, origin_refusalRecord, ← hlevel]
  unfold refusalRecord
  simp only [List.append_assoc, List.cons_append, List.nil_append]

theorem printable_timeOfDay (t : TimeOfDay) : Text.Printable t.text := by
  intro c hc
  refine Text.isPrintable_of_isVisibleAscii ?_
  rcases TimeOfDay.mem_text hc with hdigit | rfl | rfl
  · simp only [Char.isDigit, Bool.and_eq_true, decide_eq_true_eq, UInt32.le_iff_toNat_le] at hdigit
    have hlow : 48 ≤ c.toNat := hdigit.1
    have hhigh : c.toNat ≤ 57 := hdigit.2
    simp only [Text.isVisibleAscii, Bool.and_eq_true, decide_eq_true_eq]
    omega
  · decide
  · decide

/-- A line about a refusal is printable, whatever characters the text has. -/
theorem printable_refusalLine (t : Moment) (m : LogMode) (h : r ∈ refusals names) :
    (refusalLine t m r).Printable := by
  have horigin : Text.Printable " fqnkit:check ".toList :=
    Text.printable_of_all_isVisibleAscii (by decide)
  have hlevel : Text.Printable (if m = .debug then "[INFO] ".toList else []) := by
    cases m <;> exact Text.printable_of_all_isVisibleAscii (by decide)
  have hrejected : Text.Printable "rejected ".toList :=
    Text.printable_of_all_isVisibleAscii (by decide)
  have hcolon : Text.Printable ": ".toList := Text.printable_of_all_isVisibleAscii (by decide)
  unfold refusalLine
  simp only [Text.printable_append]
  exact ⟨printable_timeOfDay _, horigin, hlevel, hrejected, Text.printable_quoted _, hcolon,
    printable_message_of_mem_refusals h⟩

/-- A line about a refusal tells the text that was refused. -/
theorem eq_of_refusalLine_eq {t : Moment} (h : refusalLine t m r = refusalLine t m r') :
    r.1 = r'.1 := by
  unfold refusalLine at h
  simp only [List.append_cancel_left_eq, Text.quoted_append_inj] at h
  exact h.1

theorem isLine_refusalRecord (m : LogMode) (h : r ∈ refusals names) :
    Written.IsLine ⟨m, refusalRecord r⟩ := by
  have hrejected : Text.Printable "rejected ".toList :=
    Text.printable_of_all_isVisibleAscii (by decide)
  have hcolon : Text.Printable ": ".toList := Text.printable_of_all_isVisibleAscii (by decide)
  have hmessage : (refusalRecord r).message.Printable := by
    unfold refusalRecord
    simp only [Text.printable_append]
    exact ⟨⟨⟨hrejected, Text.printable_quoted _⟩, hcolon⟩, printable_message_of_mem_refusals h⟩
  exact Written.isLine_of_action (by decide) (by decide) (by decide) rfl hmessage.lineFeed_notMem

/-! ## Runs -/

/-- A job that logs in a mode runs in a state in which the library has its sink at that mode. -/
theorem Invocation.LogsIn.exists_perform {t : Job} (h : i.LogsIn t m) :
    ∃ s : Session, s.Consistent ∧ s.initialized = true ∧ s.hub.sinks ≠ [] ∧ s.mode = m ∧
      i.run = i.perform s t := by
  have hinitial := Session.consistent_initial i.environment
  have hsinks : (i.session (i.requestedMode t)).hub.sinks ≠ [] := by
    intro hnil
    have hone := h.map_mode_sinks
    rw [hnil] at hone
    cases hone
  exact ⟨_, hinitial.install, hinitial.initialized_install, hsinks, h.mode_eq, h.run_eq⟩

/-- In the quietest mode a check logs nothing. In the others the error stream has one line for each
text that is refused, in the order of the texts, and nothing else: the line quotes the text, shows
the message of the refusal, and ends at the one character at which the stream can be cut. The text
can be told from its line. -/
theorem Invocation.run_check_log {json : Bool} (h : i.LogsIn (.check names json mode) m) :
    (m = .warning → i.run.errors = []) ∧
    (m ≠ .warning →
      i.run.errors = Text.rows ((refusals names).map (refusalLine i.moment m)) ∧
      i.run.errors.splitOnP Text.lineBreaks.contains =
        (refusals names).map (refusalLine i.moment m) ++ [[]]) ∧
    (∀ r r', refusalLine i.moment m r = refusalLine i.moment m r' → r.1 = r'.1) := by
  obtain ⟨s, hs, hinitialized, hsinks, rfl, hrun⟩ := h.exists_perform
  have herrors : (i.perform s (.check names json mode)).errors = Written.lines i.moment
      (if s.mode = .warning then [] else
        (refusals names).map fun r => ⟨s.mode, refusalRecord r⟩) := by
    show Written.lines i.moment (logRejections s.ensure (names.map CheckEntry.ofText)) = _
    rw [Session.ensure_of_initialized hinitialized, logRejections_map_ofText hinitialized,
      flatMap_emit_refusals hs hsinks]
  rw [hrun]
  refine ⟨fun hquiet => ?_, fun hloud => ?_, fun r r' => eq_of_refusalLine_eq⟩
  · rw [herrors, if_pos hquiet]
    rfl
  · have hrows : (i.perform s (.check names json mode)).errors =
        Text.rows ((refusals names).map (refusalLine i.moment s.mode)) := by
      rw [herrors, if_neg hloud, Written.lines_eq_rows, List.map_map]
      · exact congrArg Text.rows (List.map_congr_left fun r _ => heading_refusalRecord _ _ r)
      · exact List.forall_mem_map.2 fun r hr => isLine_refusalRecord _ hr
    refine ⟨hrows, ?_⟩
    rw [hrows]
    refine Text.splitOnP_rows rfl (List.forall_mem_map.2 fun r hr c hc => ?_)
    rw [← Bool.not_eq_true, List.contains_iff_mem]
    exact fun hbreak => (printable_refusalLine i.moment s.mode hr).lineBreak_notMem hbreak hc

/-- One of three texts is a name, one has a placeholder behind a line separator, and one has a tag
behind a line feed. -/
theorem Invocation.run_check_log_active_characters :
    let names := ["\u2028\x7b0\x7d".toList, "a.b".toList, "\n<b>".toList]
    let i : Invocation := {
      arguments := "check".toList :: "--log-mode=debug".toList :: names
      input := []
      environment := none
      moment := { date := ⟨2000, 1, 1⟩, time := ⟨3, 4, 5, 678000⟩ }
      installed := true
      read := fun _ => .error .missing }
    i.LogsIn (.check names false (some .debug)) .debug ∧
      i.run.errors = Text.rows [
        ("03:04:05.678 fqnkit:check [INFO] rejected '\\u2028\x7b0\x7d': " ++
          "Invalid identifier '\\u2028\x7b0\x7d' at segment 0 of " ++
          "'\\u2028\x7b0\x7d'.").toList,
        ("03:04:05.678 fqnkit:check [INFO] rejected '\\n<b>': " ++
          "Invalid identifier '\\n<b>' at segment 0 of '\\n<b>'.").toList] := by
  intro names i
  have hrequest : i.request = .ok ⟨false, some (.check names false (some .debug))⟩ := by
    decide +kernel
  have hlogs : i.LogsIn (.check names false (some .debug)) .debug :=
    (logsIn_iff hrequest).2 rfl
  obtain ⟨-, hloud, -⟩ := run_check_log hlogs
  refine ⟨hlogs, (hloud (by decide)).1.trans (congrArg Text.rows ?_)⟩
  decide +kernel

end Command

end DottedNames
