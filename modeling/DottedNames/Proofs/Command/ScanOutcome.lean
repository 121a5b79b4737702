import DottedNames.Proofs.Command.ScanSource
import DottedNames.Proofs.Log.Preparation

/-!
# The outcome of a scan

A scan has two outcomes (`Invocation.run_scan`). If its source can be read, be it a file or the
standard input, and its bytes are well-formed, everything that is in it is reported, and what is
written to the error stream are log lines, none of which looks like a line about an error. Otherwise
nothing is reported, and the error stream has one line that says why, whatever the log mode.
-/

namespace DottedNames

/-! ## Messages about sources -/

theorem Utf8.DecodeError.printable_message (e : DecodeError) : Text.Printable e.message := by
  have hdefect : Text.Printable e.defect.message := by
    cases e.defect <;> exact Text.printable_of_all_isVisibleAscii (by decide)
  have hcodec : Text.Printable "'utf-8' codec can't decode ".toList :=
    Text.printable_of_all_isVisibleAscii (by decide)
  have hbyte : Text.Printable "byte 0x".toList := Text.printable_of_all_isVisibleAscii (by decide)
  have hin : Text.Printable " in position ".toList :=
    Text.printable_of_all_isVisibleAscii (by decide)
  have hbytes : Text.Printable "bytes in position ".toList :=
    Text.printable_of_all_isVisibleAscii (by decide)
  have hcolon : Text.Printable ": ".toList := Text.printable_of_all_isVisibleAscii (by decide)
  have hdash : Text.isPrintable '-' = true := Text.isPrintable_of_isVisibleAscii rfl
  unfold message
  split
  · simp only [Text.printable_append, Text.printable_hexDigits, Text.printable_ofNat, hcodec, hbyte,
      hin, hcolon, hdefect, and_self]
  · simp only [Text.printable_append, Text.printable_cons, Text.printable_ofNat, hcodec, hbytes,
      hdash, hcolon, hdefect, and_self]

namespace Command

theorem printable_unreadableMessage (path : Text) (f : ReadFault) :
    (unreadableMessage path f).Printable := by
  have hnumbered : ∀ words : String, words.toList.all Text.isVisibleAscii = true →
      (unreadableMessage.numbered path words).Printable := by
    intro words h
    rw [unreadableMessage.numbered, Text.printable_append]
    exact ⟨Text.printable_of_all_isVisibleAscii h, Text.printable_quoted _⟩
  cases f with
  | nullCharacter =>
    show Text.Printable "embedded null byte".toList
    exact Text.printable_of_all_isVisibleAscii (by decide)
  | missing => exact hnumbered _ (by decide)
  | notDirectory => exact hnumbered _ (by decide)
  | isDirectory => exact hnumbered _ (by decide)
  | nameTooLong => exact hnumbered _ (by decide)

/-- A message about a source is printable, whatever characters its path has. -/
theorem SourceFault.printable_message (f : SourceFault) : f.message.Printable := by
  cases f with
  | unreadable path f => exact printable_unreadableMessage path f
  | undecodable e => exact e.printable_message

/-! ## Sources -/

/-- The source of a scan is there and can be decoded. -/
inductive Invocation.HasSource (i : Invocation) : Option Text → Prop
  /-- The standard input is always there. -/
  | input (h : Utf8.WellFormed i.input) : i.HasSource none
  /-- A dash stands for the standard input. -/
  | dash (h : Utf8.WellFormed i.input) : i.HasSource (some ['-'])
  /-- A file has to be readable. -/
  | file {path : Text} {bytes : List UInt8} (hpath : path ≠ ['-'])
    (hread : i.read path = .ok bytes) (h : Utf8.WellFormed bytes) : i.HasSource (some path)

/-- The text that a source holds. -/
inductive Invocation.Supplies (i : Invocation) : Option Text → Text → Prop
  /-- The text whose UTF-8 form is on the standard input, as it is. -/
  | input {t : Text} (h : i.input = Utf8.encode t) : i.Supplies none t
  /-- A dash stands for the standard input. -/
  | dash {t : Text} (h : i.input = Utf8.encode t) : i.Supplies (some ['-']) t
  /-- The text whose UTF-8 form the file holds, with unified line ends. -/
  | file {path t : Text} (hpath : path ≠ ['-']) (hread : i.read path = .ok (Utf8.encode t)) :
    i.Supplies (some path) t.unifyNewlines

variable {i : Invocation} {source : Option Text} {t : Text} {bytes : List UInt8}

theorem Invocation.Supplies.source_eq (h : i.Supplies source t) : i.source source = .ok t := by
  cases h with
  | input h => exact source_of_input h
  | dash h => exact source_of_input h
  | file hpath hread => exact source_of_read hpath hread

/-- A source that is there supplies a text. -/
theorem Invocation.HasSource.exists_supplies (h : i.HasSource source) :
    ∃ t, i.Supplies source t := by
  cases h with
  | input h =>
    obtain ⟨t, ht⟩ := Utf8.wellFormed_iff.1 h
    exact ⟨t, .input ht⟩
  | dash h =>
    obtain ⟨t, ht⟩ := Utf8.wellFormed_iff.1 h
    exact ⟨t, .dash ht⟩
  | file hpath hread h =>
    obtain ⟨t, rfl⟩ := Utf8.wellFormed_iff.1 h
    exact ⟨_, .file hpath hread⟩

/-- A file that is scanned holds well-formed bytes. -/
theorem Invocation.HasSource.wellFormed {path : Text} (h : i.HasSource (some path))
    (hpath : path ≠ ['-']) (hread : i.read path = .ok bytes) : Utf8.WellFormed bytes := by
  cases h with
  | dash => exact absurd rfl hpath
  | file _ hread' h =>
    rw [hread] at hread'
    cases hread'
    exact h

theorem exists_textOfInput_eq_error (h : ¬ Utf8.WellFormed bytes) :
    ∃ f, textOfInput bytes = .error f := by
  obtain ⟨e, he⟩ := Utf8.exists_decode_eq_error_iff.2 h
  exact ⟨.undecodable e, by rw [textOfInput, he]; rfl⟩

theorem exists_textOfFile_eq_error (h : ¬ Utf8.WellFormed bytes) :
    ∃ f, textOfFile bytes = .error f := by
  obtain ⟨e, he⟩ := Utf8.exists_decode_eq_error_iff.2 h
  exact ⟨.undecodable e, by rw [textOfFile, he]⟩

/-- From any other source nothing is read. -/
theorem Invocation.exists_source_eq_error (h : ¬ i.HasSource source) :
    ∃ f, i.source source = .error f := by
  cases source with
  | none => exact exists_textOfInput_eq_error fun hinput => h (.input hinput)
  | some path =>
    by_cases hdash : path = ['-']
    · rw [Invocation.source, if_pos hdash]
      exact exists_textOfInput_eq_error fun hinput => h (hdash ▸ .dash hinput)
    · rw [Invocation.source, if_neg hdash]
      cases hread : i.read path with
      | error f => exact ⟨_, rfl⟩
      | ok bytes => exact exists_textOfFile_eq_error fun hbytes => h (.file hdash hread hbytes)

/-! ## The error stream -/

/-- No line starts with the words of an error. -/
def ReportsNoError (errors : Text) : Prop :=
  ∀ l ∈ errors.splitOn '\n', ¬ "fqnkit error".toList <+: l

/-- There is one line, which starts with the words of an error and has printable characters only. -/
def ReportsError (errors : Text) : Prop :=
  ∃ message, Text.Printable message ∧ errors = errorLine message

/-- The record about a scan. -/
def scanRecord (text : Text) (entries : List ScanEntry) : LogRecord where
  level := .info
  message := scanSummary text entries
  bindings := LogRecord.ownBindings (Session.action "scan")

/-- A scan logs that the pattern was prepared and what was scanned, if anything. -/
theorem errors_runScan (m : Moment) (s : Session) (text : Text) (unique json : Bool) :
    ∃ ws : List Written, (runScan m s text unique json).errors = Written.lines m ws ∧
      ∀ w ∈ ws, w.record = Session.preparation ∨ ∃ entries, w.record = scanRecord text entries := by
  refine ⟨_, rfl, fun w hw => ?_⟩
  rcases List.mem_append.1 hw with hprepared | hsummary
  · exact .inl (Session.record_of_mem_prepare hprepared)
  · exact .inr ⟨_, Session.record_of_mem_emit hsummary⟩

theorem printable_scanSummary (text : Text) (entries : List ScanEntry) :
    (scanSummary text entries).Printable := by
  have hscanned : Text.Printable "scanned ".toList :=
    Text.printable_of_all_isVisibleAscii (by decide)
  have hcharacters : Text.Printable " character(s), ".toList :=
    Text.printable_of_all_isVisibleAscii (by decide)
  have htokens : Text.Printable " token(s)".toList :=
    Text.printable_of_all_isVisibleAscii (by decide)
  unfold scanSummary
  simp only [Text.printable_append]
  exact ⟨⟨⟨⟨hscanned, Text.printable_ofNat _⟩, hcharacters⟩, Text.printable_ofNat _⟩, htokens⟩

/-- Nothing that this library logs during a scan breaks its line or is taken for markup. -/
theorem isLine_of_scan {w : Written}
    (h : w.record = Session.preparation ∨ ∃ entries, w.record = scanRecord t entries) :
    w.IsLine := by
  obtain ⟨mode, r⟩ := w
  rcases h with rfl | ⟨entries, rfl⟩
  · exact Session.isLine_preparation
  · exact Written.isLine_of_action (by decide) (by decide) (by decide) rfl
      (printable_scanSummary t entries).lineFeed_notMem

/-- A line of the log starts with the time, so it is not taken for a line about an error. -/
theorem reportsNoError_lines {m : Moment} {ws : List Written} (h : ∀ w ∈ ws, w.IsLine) :
    ReportsNoError (Written.lines m ws) := by
  intro l hl hprefix
  obtain ⟨rest, hrest⟩ := hprefix
  have hf : l.head? = some 'f' := by
    rw [← hrest]
    rfl
  rw [Written.splitOn_lines h, List.mem_append] at hl
  rcases hl with hl | hl
  · obtain ⟨w, -, rfl⟩ := List.mem_map.1 hl
    obtain ⟨c, hhead, hdigit⟩ := w.exists_head?_heading m
    rw [List.head?_append, hhead] at hf
    cases hf
    exact absurd hdigit (by decide)
  · rw [List.mem_singleton.1 hl] at hf
    cases hf

/-! ## Runs -/

/-- If the source of a scan is there and well-formed, the scan succeeds and reports all of it, and
no line of the error stream is about an error. Otherwise it fails and reports nothing, and the error
stream is one line about an error. The log mode can be any. -/
theorem Invocation.run_scan {unique json debug : Bool} {mode : Option LogMode}
    (hr : i.request = .ok ⟨debug, some (.scan source unique json mode)⟩) :
    (i.HasSource source → i.run.exit = 0 ∧ ReportsNoError i.run.errors ∧
      ∃ t, i.Supplies source t ∧
        i.run.output = ScanEntry.report json (ScanEntry.reported unique t)) ∧
    (¬ i.HasSource source → i.run.exit = 1 ∧ i.run.output = [] ∧ ReportsError i.run.errors) := by
  rw [run_of_request hr]
  let s := i.session (i.requestedMode (.scan source unique json mode))
  refine ⟨fun hsource => ?_, fun hsource => ?_⟩
  · obtain ⟨t, ht⟩ := hsource.exists_supplies
    obtain ⟨ws, herrors, hrecords⟩ := errors_runScan i.moment s t unique json
    have hquiet : ReportsNoError (runScan i.moment s t unique json).errors := by
      rw [herrors]
      exact reportsNoError_lines fun w hw => isLine_of_scan (hrecords w hw)
    rw [perform_scan_of_ok ht.source_eq]
    exact ⟨rfl, hquiet, t, ht, output_runScan i.moment s t unique json⟩
  · obtain ⟨f, hf⟩ := exists_source_eq_error hsource
    rw [perform_scan_of_error hf]
    exact ⟨rfl, rfl, f.message, f.printable_message, rfl⟩

/-- A file that ends within a character, scanned in the mode for debugging. -/
theorem Invocation.run_scan_truncated :
    let path := "a.txt".toList
    let tree : FileTree := [⟨[path], [0x61, 0xC3]⟩]
    let i : Invocation := {
      arguments := ["scan".toList, path, "-d".toList]
      input := []
      environment := none
      moment := { date := ⟨2000, 1, 1⟩, time := ⟨0, 0, 0, 0⟩ }
      installed := true
      read := tree.read }
    i.request = .ok ⟨false, some (.scan (some path) false false none)⟩ ∧
      ¬ i.HasSource (some path) ∧
      i.run.exit = 1 ∧ i.run.output = [] ∧ ReportsError i.run.errors := by
  intro path tree i
  have hrequest : i.request = .ok ⟨false, some (.scan (some path) false false none)⟩ := by
    decide +kernel
  have hread : i.read path = .ok [0x61, 0xC3] := by decide +kernel
  have hsource : ¬ i.HasSource (some path) := by
    intro h
    have hwellFormed : Utf8.WellFormed [0x61, 0xC3] := h.wellFormed (by decide) hread
    exact Utf8.exists_decode_eq_error_iff.1 ⟨⟨0xC3, 1, 0, .unexpectedEnd⟩, by decide +kernel⟩
      hwellFormed
  exact ⟨hrequest, hsource, (run_scan hrequest).2 hsource⟩

end Command

end DottedNames
