import DottedNames.Command.Run
import DottedNames.Proofs.Location.Lines
import DottedNames.Proofs.Token.Locality

/-!
# Scanning line by line

The report of a scan is made from the tokens of the whole text and from the table of its line
starts. It can be made without either: scan every line by itself and give each token of it the
number of the line and its own column there (`ScanEntry.byLines`). The two agree because no token
goes across a line feed, and because the table sends an offset behind the first line where it sends
the rest of the offset in what follows, one line further down.
-/

namespace DottedNames.Command

namespace ScanEntry

variable {text l rest : Text} {e : ScanEntry}

/-! ## The report by lines -/

/-- The entries for a line that has the given number, found in the line alone. -/
def ofLine (line : Text × Nat) : List ScanEntry :=
  (Token.scan line.1).map fun t => ⟨t.text, line.2, t.start.toNat + 1⟩

/-- The entries for the lines of a text, each line scanned by itself. -/
def byLines (text : Text) : List ScanEntry := ((text.splitOn '\n').zipIdx 1).flatMap ofLine

/-- The same entry one line further down. -/
def below (e : ScanEntry) : ScanEntry := ⟨e.name, e.location.below⟩

/-- The name stands in the text where the entry says. -/
structure IsExact (text : Text) (e : ScanEntry) : Prop where
  /-- Lines are counted from one. -/
  one_le_line : 1 ≤ e.location.line
  /-- Columns are counted from one. -/
  one_le_column : 1 ≤ e.location.column
  /-- The line of the text has the name at the column. -/
  span : ∃ l, (text.splitOn '\n')[e.location.line - 1]? = some l ∧
    (l.drop (e.location.column - 1)).take e.name.length = e.name

/-- The entry comes before the other one, by its line and in the same line by its column. -/
def Before (e f : ScanEntry) : Prop :=
  e.location.line < f.location.line ∨
    e.location.line = f.location.line ∧ e.location.column < f.location.column

theorem isRunChar_lineFeed : Text.isRunChar '\n' = false := by decide +kernel

theorem byLines_of_notMem (h : '\n' ∉ l) : byLines l = ofLine (l, 1) := by
  rw [byLines, List.splitOn_eq_singleton h]
  exact List.append_nil _

/-- The entries of the lines behind the first one are those of what follows, one line further
down. -/
theorem byLines_append_line (h : '\n' ∉ l) :
    byLines (l ++ '\n' :: rest) = ofLine (l, 1) ++ (byLines rest).map below := by
  have hlater : ∀ line : Text × Nat,
      ofLine (line.1, line.2 + 1) = (ofLine line).map below := by
    intro line
    simp only [ofLine, List.map_map]
    rfl
  rw [byLines, List.splitOn_append_cons_self_of_not_mem h, List.zipIdx_cons, List.flatMap_cons,
    List.zipIdx_succ, List.flatMap_map, byLines, List.map_flatMap]
  simp only [hlater]

/-! ## The table of line starts agrees -/

theorem ofTokens_false (tokens : List Token) :
    ofTokens false text tokens = tokens.map (ofToken (Location.lineStarts text)) := rfl

/-- A token of the first line is located in the line. -/
theorem ofToken_first_line {t : Token} (h : '\n' ∉ l) (ht : t ∈ Token.scan l) :
    ofToken (Location.lineStarts (l ++ '\n' :: rest)) t = ⟨t.text, 1, t.start.toNat + 1⟩ := by
  obtain ⟨u, v, hsplit, hstart, -⟩ := Token.exists_split_of_mem_scan ht
  have hle : t.start.toNat ≤ l.length := by
    rw [hstart, hsplit]
    simp only [List.length_append, Int.toNat_natCast]
    omega
  rw [ofToken, Location.ofOffset_first_line h hle]

/-- A token of what follows is located there, one line further down. -/
theorem ofToken_later_line {t : Token} (h : '\n' ∉ l) (ht : t ∈ Token.scan rest) :
    ofToken (Location.lineStarts (l ++ '\n' :: rest)) (t.moved (l.length + 1)) =
      (ofToken (Location.lineStarts rest) t).below := by
  obtain ⟨u, v, -, hstart, -⟩ := Token.exists_split_of_mem_scan ht
  have hmoved : (t.moved (l.length + 1)).start.toNat = l.length + 1 + t.start.toNat := by
    simp only [Token.moved, hstart]
    omega
  rw [ofToken, hmoved, Location.ofOffset_later_line h]
  rfl

/-- Scanning the text at once reports what scanning it line by line reports. -/
theorem ofTokens_scan_eq_byLines (text : Text) :
    ofTokens false text (Token.scan text) = byLines text := by
  rw [ofTokens_false]
  induction text using Text.lines_induction with
  | last l h =>
    rw [byLines_of_notMem h]
    refine List.map_congr_left fun t _ => ?_
    rw [ofToken, Location.ofOffset_only_line h]
  | line l rest h ih =>
    rw [byLines_append_line h, Token.scan_append_cons isRunChar_lineFeed, List.map_append,
      List.map_map, ← ih, List.map_map]
    -- The tokens of the first line and those behind it, as the report by lines cuts them.
    congr 1
    · exact List.map_congr_left fun t ht => ofToken_first_line h ht
    · exact List.map_congr_left fun t ht => ofToken_later_line h ht

/-! ## Positions -/

theorem mem_byLines_iff :
    e ∈ byLines text ↔
      ∃ l n, 1 ≤ n ∧ (text.splitOn '\n')[n - 1]? = some l ∧ e ∈ ofLine (l, n) := by
  simp only [byLines, List.mem_flatMap, Prod.exists, List.mk_mem_zipIdx_iff_le_and_getElem?_sub,
    and_assoc]

/-- Every reported position is exact. -/
theorem isExact_of_mem_byLines (h : e ∈ byLines text) : e.IsExact text := by
  obtain ⟨l, n, hn, hget, he⟩ := mem_byLines_iff.1 h
  obtain ⟨t, ht, rfl⟩ := List.mem_map.1 he
  obtain ⟨u, v, hsplit, hstart, -⟩ := Token.exists_split_of_mem_scan ht
  simp only at hsplit
  refine ⟨hn, Nat.le_add_left 1 _, l, hget, ?_⟩
  have hcolumn : t.start.toNat + 1 - 1 = u.length := by omega
  rw [hcolumn, hsplit, List.append_assoc, List.drop_left, List.take_left]

/-- The entries are in order, and no two are at one place. -/
theorem pairwise_byLines (text : Text) : (byLines text).Pairwise Before := by
  have hnumbers : ((text.splitOn '\n').zipIdx 1).Pairwise fun a b => a.2 < b.2 := by
    rw [← List.pairwise_map (f := Prod.snd) (R := (· < ·)), List.zipIdx_map_snd]
    exact List.pairwise_lt_range'
  refine List.pairwise_flatMap.2 ⟨fun line _ => ?_, hnumbers.imp fun hlt e he f hf => ?_⟩
  · -- In one line the columns go up with the starts of the tokens.
    refine List.pairwise_map.2 ((Token.pairwise_scan line.1).imp_of_mem fun ha hb hlt => ?_)
    obtain ⟨u, -, -, hstart, -⟩ := Token.exists_split_of_mem_scan ha
    refine .inr ⟨rfl, ?_⟩
    simp only
    omega
  · obtain ⟨a, -, rfl⟩ := List.mem_map.1 he
    obtain ⟨b, -, rfl⟩ := List.mem_map.1 hf
    exact .inl hlt

/-- No name is found or lost by cutting the text into lines. -/
theorem map_name_byLines (text : Text) :
    (byLines text).map name =
      (text.splitOn '\n').flatMap fun l => (Token.scan l).map Token.text := by
  have hline : ∀ line : Text × Nat,
      (ofLine line).map name = (Token.scan line.1).map Token.text := by
    intro line
    simp only [ofLine, List.map_map]
    rfl
  rw [byLines, List.map_flatMap]
  simp only [hline]
  rw [← List.flatMap_map Prod.fst fun l => (Token.scan l).map Token.text, List.zipIdx_map_fst]

end ScanEntry

open ScanEntry

/-- What a scan reports of a text is what it reports of the single lines: the entries of the whole
text are those of the lines in order, each entry is exact, each stands behind the one before it, and
no name is found or lost by scanning everything at once. -/
theorem Invocation.perform_scan_eq_byLines {i : Invocation} {path : Option Text} {text : Text}
    (h : i.source path = .ok text) (s : Session) (json : Bool) (mode : Option LogMode) :
    (i.perform s (.scan path false json mode)).exit = 0 ∧
    (i.perform s (.scan path false json mode)).output =
      (if json then jsonReport ((byLines text).map record) else (byLines text).flatMap line) ∧
    ofTokens false text (Token.scan text) = byLines text ∧
    (∀ e ∈ byLines text, e.IsExact text) ∧
    (byLines text).Pairwise Before ∧
    (Token.scan text).map Token.text =
      (text.splitOn '\n').flatMap fun l => (Token.scan l).map Token.text := by
  have hperform : i.perform s (.scan path false json mode) =
      runScan i.moment s text false json := by
    simp only [perform, h]
  rw [hperform]
  refine ⟨rfl, ?_, ofTokens_scan_eq_byLines text, fun e => isExact_of_mem_byLines,
    pairwise_byLines text, ?_⟩
  · simp only [runScan, ofTokens_scan_eq_byLines]
  · rw [← map_name_byLines, ← ofTokens_scan_eq_byLines, ofTokens_false, List.map_map]
    rfl

/-- The third line has two names, behind an empty line and a line without a name. -/
theorem Invocation.perform_scan_third_line :
    let text : Text := ['\n', '1', 'a', '\n', 'a', '.', '_', ' ', 'b', '\n']
    let i : Invocation := {
      arguments := []
      input := Utf8.encode text
      environment := none
      moment := { date := ⟨2000, 1, 1⟩, time := ⟨0, 0, 0, 0⟩ }
      installed := true
      read := fun _ => .error .missing }
    i.source none = .ok text ∧
    (i.perform (.initial none) (.scan none false false none)).output =
      ['3', ':', '1', '\t', 'a', '.', '_', '\n', '3', ':', '5', '\t', 'b', '\n'] := by
  intro text i
  have hsource : i.source none = .ok text := by decide +kernel
  refine ⟨hsource, (perform_scan_eq_byLines hsource (.initial none) false none).2.1.trans ?_⟩
  decide +kernel

end DottedNames.Command
