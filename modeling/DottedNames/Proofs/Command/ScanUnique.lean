import DottedNames.Proofs.Command.ScanSource
import DottedNames.Proofs.Operand.Distinct
import DottedNames.Proofs.Token.Names

/-!
# Scanning with each name once

If each name is wanted once, a scan goes over the tokens with the list of texts it has seen. At each
token these are the texts of all tokens before it, whether they were reported or not, so what is
left are the entries whose name no earlier entry has (`ScanEntry.ofTokens_true`). The texts of the
tokens are the written forms of the names that are found in the text, and names are equal when their
written forms are. So the names of the entries are those of the distinct names that are found.
-/

namespace DottedNames.Command

namespace ScanEntry

theorem firstOccurrences_eq (seen : List Text) (tokens : List Token) :
    firstOccurrences seen tokens =
      (firstsBy Token.text tokens).filter fun t => t.text ∉ seen := by
  induction tokens generalizing seen with
  | nil => rfl
  | cons t tokens ih =>
    rw [firstOccurrences, firstsBy_cons]
    by_cases ht : t.text ∈ seen
    · -- The tokens behind `t` that repeat it are dropped because its text was seen before, too.
      have hcontains : seen.contains t.text = true := List.contains_iff_mem.2 ht
      have hdrop : ∀ u ∈ firstsBy Token.text tokens,
          decide (u.text ∉ seen) = (decide (u.text ∉ seen) && decide (u.text ≠ t.text)) := by
        intro u _
        by_cases hu : u.text = t.text
        · simp [hu, ht]
        · simp [hu]
      rw [if_pos hcontains, ih, List.filter_cons_of_neg (by simpa using ht), List.filter_filter]
      exact List.filter_congr hdrop
    · have hcontains : ¬ seen.contains t.text = true := by
        rwa [List.contains_iff_mem]
      have hseen : ∀ u ∈ firstsBy Token.text tokens,
          decide (u.text ∉ t.text :: seen) =
            (decide (u.text ∉ seen) && decide (u.text ≠ t.text)) := by
        intro u _
        simp only [List.mem_cons, not_or, Bool.decide_and, Bool.and_comm, ne_eq]
      rw [if_neg hcontains, ih, List.filter_cons_of_pos (by simpa using ht), List.filter_filter]
      exact congrArg _ (List.filter_congr hseen)

/-- The entries with each name once are those whose name no earlier entry has. -/
theorem ofTokens_true (text : Text) (tokens : List Token) :
    ofTokens true text tokens = firstsBy name (ofTokens false text tokens) := by
  have hfirst : firstOccurrences [] tokens = firstsBy Token.text tokens := by
    rw [firstOccurrences_eq]
    exact List.filter_eq_self.2 fun t _ => by simp
  rw [ofTokens_false, firstsBy_map, ofTokens, if_pos rfl, hfirst]
  rfl

end ScanEntry

open ScanEntry

variable {i : Invocation} {path : Option Text} {text : Text}

theorem Invocation.output_perform_scan (h : i.source path = .ok text) (s : Session)
    (unique json : Bool) (mode : Option LogMode) :
    (i.perform s (.scan path unique json mode)).output =
      report json (ofTokens unique text (Token.scan text)) := by
  rw [perform_scan_of_ok h]
  rfl

/-- If each name is wanted once, a scan reports the entries it reports otherwise, each as it is,
without those whose name an earlier entry has. Their names are the written forms of the names that
are found in the text, each of these once, whether equality alone tells which of them are distinct
or a table of hashes does, for any hashes of texts and of lists of texts. -/
theorem Invocation.perform_scan_unique (h : i.source path = .ok text) (s s' : Session)
    (json : Bool) (mode : Option LogMode) :
    let entries := ofTokens false text (Token.scan text)
    (i.perform s (.scan path false json mode)).output = report json entries ∧
      (i.perform s (.scan path true json mode)).output = report json (firstsBy name entries) ∧
      ∃ found kept : List QualName, (s'.find (.text text)).2.2 = .ok found ∧
        entries.map name = found.map QualName.text ∧
        (firstsBy name entries).map name = kept.map QualName.text ∧
        Operand.distinct (found.map .name) = .ok (kept.map .name) ∧
        ∀ (η : Type) [DecidableEq η] (ofText : Text → η) (ofTexts : List Text → η),
          (found.map .name).foldl (Designator.tabulate ofText ofTexts) [] =
            kept.map .name := by
  intro entries
  obtain ⟨found, hfound, htexts⟩ := Token.exists_namesOfTokens_scan text
  have hentries : entries.map name = found.map QualName.text := by
    show (ofTokens false text (Token.scan text)).map name = _
    rw [ofTokens_false, List.map_map, htexts]
    rfl
  have hname : Designator.text ∘ Designator.name = QualName.text := rfl
  have hdistinct : firstsBy Designator.text (found.map .name) =
      (firstsBy QualName.text found).map .name := by
    rw [firstsBy_map, hname]
  -- Both sides take the first occurrences in one list of texts.
  have hnames : (firstsBy name entries).map name =
      (firstsBy QualName.text found).map QualName.text := by
    have hleft : firstsBy id (entries.map name) = (firstsBy name entries).map name := firstsBy_map
    have hright : firstsBy id (found.map QualName.text) =
        (firstsBy QualName.text found).map QualName.text := firstsBy_map
    rw [← hleft, hentries, hright]
  have hunique : (i.perform s (.scan path true json mode)).output =
      report json (firstsBy name entries) := by
    rw [output_perform_scan h, ofTokens_true]
  refine ⟨output_perform_scan h s false json mode, hunique, found, firstsBy QualName.text found,
    hfound, hentries, hnames, ?_, ?_⟩
  · have hnamed := Operand.distinct_designators (found.map .name)
    rw [hdistinct, List.map_map, List.map_map] at hnamed
    exact hnamed
  · intro η _ ofText ofTexts
    rw [Designator.foldl_tabulate, hdistinct]

/-- Of five entries in two lines three stay, and the name in the second line that stays is located
there. -/
theorem Invocation.perform_scan_unique_second_line :
    let text : Text := "b a.b b\na.b c".toList
    let i : Invocation := {
      arguments := []
      input := Utf8.encode text
      environment := none
      moment := { date := ⟨2000, 1, 1⟩, time := ⟨0, 0, 0, 0⟩ }
      installed := true
      read := fun _ => .error .missing }
    i.source none = .ok text ∧
      (i.perform (.initial none) (.scan none true false none)).output =
        "1:1\tb\n1:3\ta.b\n2:5\tc\n".toList := by
  intro text i
  have hsource : i.source none = .ok text := source_of_input rfl
  obtain ⟨-, hunique, -⟩ :=
    perform_scan_unique hsource (.initial none) (.initial none) false none
  refine ⟨hsource, hunique.trans ?_⟩
  decide +kernel

end DottedNames.Command
