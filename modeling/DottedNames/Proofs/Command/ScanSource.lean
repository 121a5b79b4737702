import DottedNames.Proofs.Command.LogMode
import DottedNames.Proofs.Command.ScanArguments
import DottedNames.Proofs.Command.ScanReport
import DottedNames.Proofs.Text.Newline
import DottedNames.Proofs.Text.Utf8

/-!
# The two sources of a scan

A scan reads the standard input as it is, and a file with unified line ends; the bytes of both are
taken as UTF-8. For a text in which carriage returns only end lines that makes no difference: no
name has a carriage return in it or depends on one behind it, so each line has the same names at the
same columns (`ScanEntry.byLines_withoutReturns`), and the lines are counted by their line feeds. So
a file and the standard input that hold the same text are reported alike
(`Invocation.result_scan_path`).
-/

namespace DottedNames.Command

namespace ScanEntry

variable {t l : Text}

/-! ## What is reported -/

/-- The entries that are reported of a text: all of them in order, or of those with the same name
only the first. -/
def reported (unique : Bool) (text : Text) : List ScanEntry :=
  if unique then (byLines text).eraseDupsBy fun e f => e.name == f.name else byLines text

/-- A report as it is written. -/
def report (json : Bool) (entries : List ScanEntry) : Text :=
  if json then jsonReport (entries.map record) else entries.flatMap line

/-- Dropping the tokens that repeat a text drops the entries that repeat a name. -/
theorem eraseDupsBy_loop_map_ofToken (starts : List Nat) (tokens : List Token)
    (seen : List ScanEntry) :
    List.eraseDupsBy.loop (fun e f => e.name == f.name) (tokens.map (ofToken starts)) seen =
      seen.reverse ++ (firstOccurrences (seen.map name) tokens).map (ofToken starts) := by
  induction tokens generalizing seen with
  | nil => simp [List.eraseDupsBy.loop, firstOccurrences]
  | cons t tokens ih =>
    have hseen : (seen.any fun f => (ofToken starts t).name == f.name) =
        (seen.map name).contains t.text := by
      rw [List.contains_eq_any_beq, List.any_map]
      rfl
    rw [List.map_cons, List.eraseDupsBy.loop, hseen, firstOccurrences]
    cases (seen.map name).contains t.text with
    | true => exact ih seen
    | false =>
      rw [if_neg Bool.false_ne_true, List.map_cons]
      refine (ih (ofToken starts t :: seen)).trans ?_
      rw [List.reverse_cons, List.append_assoc, List.map_cons]
      rfl

theorem ofTokens_scan_eq_reported (unique : Bool) (text : Text) :
    ofTokens unique text (Token.scan text) = reported unique text := by
  cases unique with
  | false => exact ofTokens_scan_eq_byLines text
  | true =>
    rw [reported, if_pos rfl, ← ofTokens_scan_eq_byLines, ofTokens_false]
    exact (eraseDupsBy_loop_map_ofToken _ _ []).symm

/-! ## Carriage returns -/

theorem isRunChar_carriageReturn : Text.isRunChar '\r' = false := by decide +kernel

/-- A carriage return at the end of a line hides no name and adds none. -/
theorem scan_append_carriageReturn (l : Text) : Token.scan (l ++ ['\r']) = Token.scan l := by
  rw [Token.scan_append_cons isRunChar_carriageReturn]
  exact List.append_nil _

/-- Where carriage returns only end lines, a text has the same entries without them. -/
theorem byLines_withoutReturns (h : t.ReturnsEndLines) : byLines t.withoutReturns = byLines t := by
  induction t using Text.lines_induction with
  | last l hl => rw [h.withoutReturns_last hl]
  | line l rest hl ih =>
    have hscan : Token.scan l.withoutReturns = Token.scan l := by
      rcases h.withoutReturns_line hl with heq | heq
      · rw [← heq]
      · conv_rhs => rw [heq, scan_append_carriageReturn]
    have hcut : (l ++ '\n' :: rest).withoutReturns =
        l.withoutReturns ++ '\n' :: rest.withoutReturns := List.filter_append l ('\n' :: rest)
    have hnotMem : '\n' ∉ l.withoutReturns := fun hmem => hl (List.mem_of_mem_filter hmem)
    have hrest : rest.ReturnsEndLines := (Text.returnsEndLines_cons.1 h.of_append).2
    rw [hcut, byLines_append_line hnotMem, byLines_append_line hl, ih hrest, ofLine, hscan, ofLine]

theorem reported_unifyNewlines (h : t.ReturnsEndLines) (unique : Bool) :
    reported unique t.unifyNewlines = reported unique t := by
  rw [Text.unifyNewlines_eq_withoutReturns h, reported, reported, byLines_withoutReturns h]

end ScanEntry

open ScanEntry
open ReportFlag (text)

variable {i : Invocation} {path t : Text}

/-! ## Runs -/

theorem output_runScan (m : Moment) (s : Session) (t : Text) (unique json : Bool) :
    (runScan m s t unique json).output = report json (reported unique t) := by
  rw [← ofTokens_scan_eq_reported]
  rfl

/-- A source that can be read is scanned. -/
theorem Invocation.perform_scan_of_ok {source : Option Text} (h : i.source source = .ok t)
    (s : Session) (unique json : Bool) (mode : Option LogMode) :
    i.perform s (.scan source unique json mode) = runScan i.moment s t unique json := by
  simp only [perform, h]

/-- A source that cannot be read is reported as an error. -/
theorem Invocation.perform_scan_of_error {source : Option Text} {f : SourceFault}
    (h : i.source source = .error f) (s : Session) (unique json : Bool)
    (mode : Option LogMode) :
    i.perform s (.scan source unique json mode) = ⟨1, [], errorLine f.message⟩ := by
  simp only [perform, h]

theorem isDebugFlag_of_head? (h : t.head? ≠ some '-') : isDebugFlag t = false := by
  rw [isDebugFlag, ← Bool.not_eq_true, List.contains_iff_mem]
  intro hmem
  have hhead : ∀ u ∈ debugFlags, u.head? = some '-' := by decide
  exact h (hhead t hmem)

theorem isDebugFlag_of_mem_map_text {flags : List ReportFlag} (h : t ∈ flags.map text) :
    isDebugFlag t = false := by
  obtain ⟨f, -, rfl⟩ := List.mem_map.1 h
  cases f <;> decide

theorem Invocation.request_of_forall (h : ∀ t ∈ i.arguments, isDebugFlag t = false) :
    i.request = parse .current i.arguments := by
  rw [request, ordinary, List.filter_eq_self.2 fun t ht => by rw [h t ht]; rfl]

/-- A scan of the standard input, with some flags. -/
theorem Invocation.request_scan {flags : List ReportFlag}
    (h : i.arguments = "scan".toList :: flags.map text) :
    i.request =
      .ok ⟨false, some (.scan none (flags.contains .unique) (flags.contains .json) none)⟩ := by
  rw [request_of_forall, h, parse_scan]
  intro u hu
  rw [h] at hu
  rcases List.mem_cons.1 hu with rfl | hu
  · decide
  · exact isDebugFlag_of_mem_map_text hu

/-- A scan of a file, with some flags in front of its path and behind it. -/
theorem Invocation.request_scan_path {before after : List ReportFlag}
    (hpath : path.head? ≠ some '-')
    (h : i.arguments = "scan".toList :: (before.map text ++ path :: after.map text)) :
    i.request = .ok ⟨false, some (.scan (some path) ((before ++ after).contains .unique)
      ((before ++ after).contains .json) none)⟩ := by
  rw [request_of_forall, h, parse_scan_path hpath]
  intro u hu
  rw [h] at hu
  rcases List.mem_cons.1 hu with rfl | hu
  · decide
  rcases List.mem_append.1 hu with hu | hu
  · exact isDebugFlag_of_mem_map_text hu
  rcases List.mem_cons.1 hu with rfl | hu
  · exact isDebugFlag_of_head? hpath
  · exact isDebugFlag_of_mem_map_text hu

/-- A scan has the result of scanning its source. -/
theorem Invocation.result_of_scan {source : Option Text} {unique json debug : Bool}
    {mode : Option LogMode} (hr : i.request = .ok ⟨debug, some (.scan source unique json mode)⟩)
    (ht : i.source source = .ok t) : i.result = (0, report json (reported unique t)) := by
  rw [result_of_job hr (.initial none), perform_scan_of_ok ht, Outcome.result, output_runScan]
  rfl

/-- The standard input is scanned as it is, if it can be decoded. -/
theorem Invocation.source_of_input (h : i.input = Utf8.encode t) : i.source none = .ok t := by
  rw [source, h, textOfInput, Utf8.decode_eq_ok_iff.2 rfl]
  rfl

/-- A file that can be decoded is scanned with unified line ends. -/
theorem Invocation.source_of_read (hpath : path ≠ ['-'])
    (hread : i.read path = .ok (Utf8.encode t)) :
    i.source (some path) = .ok t.unifyNewlines := by
  rw [source, if_neg hpath, hread]
  show textOfFile (Utf8.encode t) = _
  rw [textOfFile, Utf8.decode_eq_ok_iff.2 rfl]

/-- The file with a path and the standard input are reported alike, line by line and column by
column, if both hold the UTF-8 form of a text and each carriage return of it has a line feed behind
it. -/
theorem Invocation.result_scan_path (i : Invocation) (before after : List ReportFlag)
    (hpath : path.head? ≠ some '-') (hread : i.read path = .ok (Utf8.encode t))
    (ht : t.ReturnsEndLines) :
    let ofPath := { i with
      arguments := "scan".toList :: (before.map text ++ path :: after.map text) }
    let ofInput := { i with
      arguments := "scan".toList :: (before ++ after).map text
      input := Utf8.encode t }
    ofPath.result = ofInput.result ∧
      ofInput.result = (0, report ((before ++ after).contains .json)
        (reported ((before ++ after).contains .unique) t)) := by
  intro ofPath ofInput
  have hdash : path ≠ ['-'] := by
    rintro rfl
    exact hpath rfl
  have hsource : ofPath.source (some path) = .ok t.unifyNewlines := source_of_read hdash hread
  have hresult := result_of_scan (request_scan_path hpath rfl : ofPath.request = _) hsource
  have hinput := result_of_scan (request_scan rfl : ofInput.request = _) (source_of_input rfl)
  refine ⟨?_, hinput⟩
  rw [hresult, reported_unifyNewlines ht, hinput]

/-- A file below a directory, with a flag in front of its path and one behind it; the second line
starts behind a carriage return and a line feed. -/
theorem Invocation.result_scan_path_in_directory :
    let path := "notes/a.txt".toList
    let t : Text := "a.b \r\n c, a.b\r\n".toList
    let tree : FileTree := [⟨["notes".toList, "a.txt".toList], Utf8.encode t⟩]
    let i : Invocation := {
      arguments := ["scan".toList, "--json".toList, path, "--unique".toList]
      input := []
      environment := none
      moment := { date := ⟨2000, 1, 1⟩, time := ⟨0, 0, 0, 0⟩ }
      installed := true
      read := tree.read }
    path.head? ≠ some '-' ∧ i.read path = .ok (Utf8.encode t) ∧ t.ReturnsEndLines ∧
      i.result = (0, report true [⟨"a.b".toList, ⟨1, 1⟩⟩, ⟨['c'], ⟨2, 2⟩⟩]) := by
  intro path t tree i
  have hpath : path.head? ≠ some '-' := by decide
  have hread : i.read path = .ok (Utf8.encode t) := by decide +kernel
  have hreturns : t.ReturnsEndLines := by decide +kernel
  have hentries : reported true t = [⟨"a.b".toList, ⟨1, 1⟩⟩, ⟨['c'], ⟨2, 2⟩⟩] := by
    decide +kernel
  obtain ⟨hsame, hresult⟩ := i.result_scan_path [.json] [.unique] hpath hread hreturns
  refine ⟨hpath, hread, hreturns, (hsame.trans hresult).trans ?_⟩
  exact congrArg (fun entries => (0, report true entries)) hentries

end DottedNames.Command
