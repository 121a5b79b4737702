import DottedNames.Proofs.Command.ScanReading
import DottedNames.Proofs.Token.Written

/-!
# Scanning what a scan reports

The lines of a report can be scanned like any other text, and the names in them are those of the
entries. In front of the name a line has numbers, a colon and a tabulator. A number holds no token,
for a token starts with a letter or an underscore, and the other two characters belong to no run,
so they keep the name apart from the numbers. The name itself was recognised before and so has no
underscore before its last segment; by itself it is recognised as a whole (`Token.scan_dottedName`).
-/

namespace DottedNames

namespace Token

variable {t : Text}

/-- Digits hold no token. -/
theorem scan_of_forall_isDigit (h : ∀ c ∈ t, c.isDigit = true) : scan t = [] := by
  rw [List.eq_nil_iff_forall_not_mem]
  intro token htoken
  obtain ⟨u, v, rfl, -⟩ := exists_split_of_mem_scan htoken
  obtain ⟨c, hc, hstart⟩ := Grammar.head?_of_mem_dottedNames (mem_dottedNames_of_mem_scan htoken)
  have hdigit : c.isDigit = true := h c (by simp [List.mem_of_mem_head? hc])
  rcases hstart with hletter | rfl
  · have hlow : ∀ n < 58, (Char.ofNat n).isAlpha = false := by decide
    have hle : c.toNat < 58 := by
      simp only [Char.isDigit, Bool.and_eq_true, decide_eq_true_eq] at hdigit
      exact Nat.lt_succ_of_le hdigit.2
    have hfalse := hlow c.toNat hle
    rw [Char.ofNat_toNat, hletter] at hfalse
    cases hfalse
  · cases hdigit

/-- A dotted name of the grammar is its only token. -/
theorem scan_dottedName (h : t ∈ Grammar.dottedNames) : scan t = [⟨t, 0, t.length⟩] := by
  obtain ⟨q, rfl⟩ := QualName.exists_eq_text_of_mem_dottedNames h
  have hwhole : q.upToUnderscore = q :=
    QualName.upToUnderscore_eq_self_iff.2 (QualName.text_mem_dottedNames_iff.1 h)
  rw [scan_text, hwhole]

end Token

namespace Command

namespace ScanEntry

variable {e : ScanEntry} {entries : List ScanEntry}

/-- How many characters stand in front of the name in the line of an entry. -/
def indent (e : ScanEntry) : Nat :=
  (Text.ofNat e.location.line).length + (Text.ofNat e.location.column).length + 2

/-- The entry for the name in the line of an entry, when the line has the given number. -/
def onLine (n : Nat) (e : ScanEntry) : ScanEntry := ⟨e.name, n, e.indent + 1⟩

theorem isRunChar_colon : Text.isRunChar ':' = false := by decide +kernel

theorem isRunChar_tab : Text.isRunChar '\t' = false := by decide +kernel

theorem scan_content (h : e.name ∈ Grammar.dottedNames) :
    Token.scan e.content =
      [⟨e.name, e.indent, (e.indent + e.name.length : Nat)⟩] := by
  have hdigits : ∀ n, Token.scan (Text.ofNat n) = [] := fun n =>
    Token.scan_of_forall_isDigit fun _ => Text.isDigit_of_mem_ofNat
  rw [content, Token.scan_append_cons isRunChar_colon, Token.scan_append_cons isRunChar_tab,
    hdigits, hdigits, Token.scan_dottedName h]
  simp only [List.nil_append, List.map_singleton, Token.moved, indent, List.cons.injEq,
    Token.mk.injEq, true_and, and_true]
  omega

/-- The line of an entry has the one name. -/
theorem ofLine_content (h : e.name ∈ Grammar.dottedNames) (n : Nat) :
    ofLine (e.content, n) = [e.onLine n] := by
  rw [ofLine, scan_content h, List.map_singleton]
  rfl

/-- The lines of a report have one name each, those of the entries in order. -/
theorem byLines_flatMap_line (h : ∀ e ∈ entries, e.name ∈ Grammar.dottedNames)
    (hlines : ∀ e ∈ entries, '\n' ∉ e.name) :
    byLines (entries.flatMap line) = (entries.zipIdx 1).map fun p => p.1.onLine p.2 := by
  have hempty : ∀ n, ofLine ([], n) = [] := fun n => rfl
  have hline : ∀ p ∈ entries.zipIdx 1, ofLine (p.1.content, p.2) = [p.1.onLine p.2] := by
    intro p hp
    exact ofLine_content (h p.1 (List.fst_mem_of_mem_zipIdx hp)) p.2
  rw [byLines, splitOn_flatMap_line hlines, List.zipIdx_append, List.flatMap_append,
    List.zipIdx_map, List.flatMap_map]
  simp only [List.zipIdx_singleton, List.flatMap_singleton, hempty, List.append_nil]
  rw [List.flatMap_congr (f := fun p => ofLine (Prod.map content id p))
    (g := fun p => [p.1.onLine p.2]) hline]
  exact List.flatMap_pure_eq_map _ _

/-- The entries that scanning the lines of some entries gives: the same names, one on each line. -/
def again (entries : List ScanEntry) : List ScanEntry :=
  (entries.zipIdx 1).map fun p => p.1.onLine p.2

theorem map_name_again (entries : List ScanEntry) :
    (again entries).map name = entries.map name := by
  have hname : name ∘ (fun p : ScanEntry × Nat => p.1.onLine p.2) = name ∘ Prod.fst := rfl
  rw [again, List.map_map, hname, ← List.map_map, List.zipIdx_map_fst]

/-- Scanning a report finds its entries on its lines, and none twice if no name was reported
twice. -/
theorem ofTokens_report {unique unique' : Bool} {text : Text}
    (hunique : unique' = true → unique = true) :
    let plain := report false (ofTokens unique text (Token.scan text))
    ofTokens unique' plain (Token.scan plain) = again (ofTokens unique text (Token.scan text)) := by
  intro plain
  have hall : ofTokens false plain (Token.scan plain) =
      again (ofTokens unique text (Token.scan text)) := by
    rw [ofTokens_scan_eq_byLines]
    exact byLines_flatMap_line (fun e => name_mem_dottedNames) fun e => lineFeed_notMem_name
  cases unique' with
  | false => exact hall
  | true =>
    rw [ofTokens_true, hall]
    refine firstsBy_of_nodup ?_
    rw [map_name_again, hunique rfl, ofTokens_true]
    exact nodup_map_firstsBy

end ScanEntry

open ScanEntry

/-- Scanning the lines that a scan reports finds the names that were reported, in the same order and
as often, whether each name was wanted once or not. Given these lines as its source, the program
reports one entry for each of them: the name of the entry that the line is about, on the line that
has its number, behind the numbers. If each name was wanted once before, it makes no difference
whether this is asked for again. -/
theorem Invocation.perform_scan_again {i : Invocation} {path : Option Text} {text : Text}
    (h : i.source path = .ok text) (s : Session) (unique : Bool) (mode : Option LogMode) :
    let entries := ofTokens unique text (Token.scan text)
    let plain := (i.perform s (.scan path unique false mode)).output
    plain = report false entries ∧
    (Token.scan plain).map Token.text = entries.map name ∧
    (∀ s' : Session, ∃ found, (s'.find (.text plain)).2.2 = .ok found ∧
      found.map QualName.text = entries.map name) ∧
    (again entries).map name = entries.map name ∧
    ∀ (i' : Invocation) (path' : Option Text), i'.source path' = .ok plain →
      ∀ (s' : Session) (unique' json : Bool) (mode' : Option LogMode),
        (unique' = true → unique = true) →
          (i'.perform s' (.scan path' unique' json mode')).output =
            report json (again entries) := by
  intro entries plain
  have hplain : plain = report false entries := output_perform_scan h s unique false mode
  have hfound : (Token.scan plain).map Token.text = entries.map name := by
    have hentries : ofTokens false plain (Token.scan plain) = again entries := by
      rw [hplain]
      exact ofTokens_report nofun
    rw [← map_name_again, ← hentries, ofTokens_false, List.map_map]
    rfl
  refine ⟨hplain, hfound, fun s' => ?_, map_name_again entries, ?_⟩
  · obtain ⟨found, hnames, htexts⟩ := Token.exists_namesOfTokens_scan plain
    exact ⟨found, hnames, htexts.trans hfound⟩
  · intro i' path' h' s' unique' json mode' hunique
    rw [output_perform_scan h', hplain]
    exact congrArg (report json) (ofTokens_report hunique)

/-- The three names of two lines are found again on three lines, each behind its numbers. -/
theorem Invocation.perform_scan_again_three_lines :
    let text : Text := "x1 a._b\n1c a._".toList
    let i : Invocation := {
      arguments := []
      input := Utf8.encode text
      environment := none
      moment := { date := ⟨2000, 1, 1⟩, time := ⟨0, 0, 0, 0⟩ }
      installed := true
      read := fun _ => .error .missing }
    let plain := "1:1\tx1\n1:4\ta\n2:4\ta._\n".toList
    i.source none = .ok text ∧
      (i.perform (.initial none) (.scan none false false none)).output = plain ∧
      (({ i with input := Utf8.encode plain } : Invocation).perform (.initial none)
        (.scan none false false none)).output = "1:5\tx1\n2:5\ta\n3:5\ta._\n".toList := by
  intro text i plain
  have hsource : i.source none = .ok text := source_of_input rfl
  obtain ⟨hplain, -, -, -, hagain⟩ := perform_scan_again hsource (.initial none) false none
  have hfirst : (i.perform (.initial none) (.scan none false false none)).output = plain :=
    hplain.trans (by decide +kernel)
  have hsource' : ({ i with input := Utf8.encode plain } : Invocation).source none =
      .ok (i.perform (.initial none) (.scan none false false none)).output := by
    rw [hfirst]
    exact source_of_input rfl
  refine ⟨hsource, hfirst, (hagain _ none hsource' (.initial none) false false none nofun).trans ?_⟩
  decide +kernel

end Command

end DottedNames
