import DottedNames.Proofs.Grammar.Recognition
import DottedNames.Token

/-!
# Scanning finds every token

Scanning goes on behind each token that it finds, and so passes over the places inside the token.
Nothing is lost by that: inside a token every place has a word character or a dot before it, and no
token starts there. Hence the tokens of a text are those that start at any of its cursors
(`scan_eq_filterMap`).
-/

namespace DottedNames.Token

open Grammar

variable {c d e : Cursor} {token : Token}

/-! ## The token at a cursor -/

/-- A token can start between two characters, at the start of a name and not inside a word. -/
theorem startsAt_iff {before : Option Char} {x : Char} :
    startsAt before x = true ↔ (x.isAlpha = true ∨ x = '_') ∧
      ∀ y ∈ before, Text.isWordChar y = false ∧ y ≠ '.' := by
  cases before <;> simp [startsAt]

theorem runsOn_eq_false_iff :
    runsOn c = false ↔ ∀ x ∈ c.ahead.head?, Text.isWordChar x = false := by
  unfold runsOn
  cases c.ahead.head? <;> simp

/-- The token at a cursor is the longest prefix that may be recognised, unless it would start or end
inside a word. -/
theorem at?_eq_some_iff :
    at? c = some (token, e) ↔ (∃ x ∈ c.ahead.head?, startsAt c.before x = true) ∧
      ∃ t, Text.Longest (Eligible c.ahead) t ∧ c.Reads t e ∧ runsOn e = false ∧
        token = ⟨t, c.position, e.position⟩ := by
  obtain ⟨position, before, ahead⟩ := c
  cases ahead with
  | nil => simp [at?]
  | cons x ahead =>
    simp only [at?, List.head?_cons, Option.mem_some_iff, exists_eq_left']
    by_cases hstart : startsAt before x = true
    · rw [if_pos hstart]
      constructor
      · intro h
        split at h
        · next e' he' =>
          obtain ⟨t, ht, hread⟩ := matchEnd?_dottedName_eq_some_iff.1 he'
          split at h
          · cases h
          · next hruns =>
            obtain ⟨rfl, rfl⟩ := Prod.mk.inj (Option.some.inj h)
            refine ⟨hstart, t, ht, hread, Bool.eq_false_iff.2 hruns, ?_⟩
            have htake := hread.take_ahead
            simp only at htake
            rw [htake]
        · cases h
      · rintro ⟨-, t, ht, hread, hruns, rfl⟩
        have hend := matchEnd?_dottedName_eq_some_iff.2 ⟨t, ht, hread⟩
        have htake := hread.take_ahead
        simp only at htake
        simp [hend, hruns, htake]
    · rw [if_neg hstart]
      simp [hstart]

/-- No token starts inside a match, whether a token starts with the match or not. -/
theorem at?_eq_none_of_inside_match {u : Text} (h : dottedName.matchEnd? c = some e)
    (hread : c.Reads u d) (hne : u ≠ []) (hlt : d.position < e.position) : at? d = none := by
  obtain ⟨t, ht, hce⟩ := matchEnd?_dottedName_eq_some_iff.1 h
  have hut : u <+: t := by
    refine List.prefix_of_prefix_length_le hread.isPrefix hce.isPrefix ?_
    have h1 := hread.position_eq
    have h2 := hce.position_eq
    omega
  -- The character before `d` is the last one of `u`, and all of `u` belongs to the match.
  have hbefore : d.before = some (u.getLast hne) := by
    rw [hread.before_eq, List.getLast?_eq_some_getLast hne, Option.some_or]
  have hlast := isNameChar_or_dot_of_mem_dottedNames ht.holds.mem_dottedNames _
    (hut.subset (List.getLast_mem hne))
  by_contra hsome
  obtain ⟨⟨token', e'⟩, hsome⟩ := Option.ne_none_iff_exists'.1 hsome
  obtain ⟨⟨x, -, hstart⟩, -⟩ := at?_eq_some_iff.1 hsome
  obtain ⟨hword, hdot⟩ := (startsAt_iff.1 hstart).2 _ hbefore
  rcases hlast with hname | hlast
  · rw [Text.isWordChar_of_isNameChar hname] at hword
    cases hword
  · exact hdot hlast

/-- No token starts inside a token. -/
theorem at?_eq_none_of_inside {u : Text} (h : at? c = some (token, e)) (hread : c.Reads u d)
    (hne : u ≠ []) (hlt : d.position < e.position) : at? d = none := by
  obtain ⟨-, t, ht, hce, -, -⟩ := at?_eq_some_iff.1 h
  exact at?_eq_none_of_inside_match (matchEnd?_dottedName_eq_some_iff.2 ⟨t, ht, hce⟩) hread hne hlt

/-! ## All tokens of a text -/

/-- Scanning from a place on finds the tokens of all cursors from there on, as long as none starts
before the place where scanning is free to go on. -/
theorem scanFrom_eq_filterMap {free position : Nat} {before : Option Char} {ahead : Text}
    (h : ∀ d ∈ Cursor.onwards position before ahead, d.position < free → at? d = none) :
    scanFrom free position before ahead =
      (Cursor.onwards position before ahead).filterMap fun d => (at? d).map Prod.fst := by
  induction ahead generalizing free position before with
  | nil => rfl
  | cons x ahead ih =>
    have hhere := h _ List.mem_cons_self
    have hlater := fun d hd => h d (List.mem_cons_of_mem _ hd)
    rw [scanFrom, Cursor.onwards, List.filterMap_cons]
    split
    · next hlt => rw [hhere hlt, ih hlater, Option.map_none]
    · split
      · next token e hat =>
        -- Scanning is free again at the end of the token, and the places up to there are inside.
        rw [hat, ih, Option.map_some]
        intro d hd hlt
        obtain ⟨u, hu⟩ := Cursor.mem_onwards_iff.1 hd
        have hread := (Cursor.reads_singleton position before x ahead).trans hu
        exact at?_eq_none_of_inside hat hread (by simp) hlt
      · next hat => rw [hat, ih hlater, Option.map_none]

/-- The tokens of a text are those that start at its cursors, from left to right. -/
theorem scan_eq_filterMap (t : Text) :
    scan t = (Cursor.all t).filterMap fun d => (at? d).map Prod.fst :=
  scanFrom_eq_filterMap fun d _ hlt => absurd hlt (Nat.not_lt_zero d.position)

theorem mem_scan_iff {t : Text} :
    token ∈ scan t ↔ ∃ d ∈ Cursor.all t, ∃ e, at? d = some (token, e) := by
  simp [scan_eq_filterMap, List.mem_filterMap]

/-- A token stands in the text at its span. -/
theorem exists_split_of_mem_scan {t : Text} (h : token ∈ scan t) :
    ∃ u v, t = u ++ token.text ++ v ∧ token.start = u.length ∧
      token.stop = (u ++ token.text).length := by
  obtain ⟨d, hd, e, hat⟩ := mem_scan_iff.1 h
  obtain ⟨u, hu⟩ := Cursor.mem_all_iff.1 hd
  obtain ⟨-, name, -, hread, -, rfl⟩ := at?_eq_some_iff.1 hat
  have hname := hu.trans hread
  have hstart := hu.position_eq
  have hstop := hname.position_eq
  simp only [Nat.zero_add] at hstart hstop
  exact ⟨u, e.ahead, hname.ahead_eq, congrArg Int.ofNat hstart, congrArg Int.ofNat hstop⟩

theorem mem_dottedNames_of_mem_scan {t : Text} (h : token ∈ scan t) : token.text ∈ dottedNames := by
  obtain ⟨d, -, e, hat⟩ := mem_scan_iff.1 h
  obtain ⟨-, name, hname, -, -, rfl⟩ := at?_eq_some_iff.1 hat
  exact hname.holds.mem_dottedNames

theorem start_lt_stop_of_mem_scan {t : Text} (h : token ∈ scan t) : token.start < token.stop := by
  obtain ⟨u, v, -, hstart, hstop⟩ := exists_split_of_mem_scan h
  have hpos : 0 < token.text.length :=
    List.length_pos_iff.2 (ne_nil_of_mem_dottedNames (mem_dottedNames_of_mem_scan h))
  rw [List.length_append] at hstop
  omega

/-- No token starts before the end of one that was found earlier. -/
theorem pairwise_stop_le_start (t : Text) : (scan t).Pairwise fun a b => a.stop ≤ b.start := by
  rw [scan_eq_filterMap]
  refine List.Pairwise.filterMap _ (fun c d hcd a ha b hb => ?_)
    (Cursor.pairwise_reads_onwards 0 none t)
  obtain ⟨u, hne, hread⟩ := hcd
  obtain ⟨⟨a, e⟩, hat, rfl⟩ := Option.map_eq_some_iff.1 ha
  obtain ⟨⟨b, f⟩, hbt, rfl⟩ := Option.map_eq_some_iff.1 hb
  have hle : e.position ≤ d.position := by
    by_contra hlt
    rw [Nat.not_le] at hlt
    rw [at?_eq_none_of_inside hat hread hne hlt] at hbt
    cases hbt
  obtain ⟨-, -, -, -, -, rfl⟩ := at?_eq_some_iff.1 hat
  obtain ⟨-, -, -, -, -, rfl⟩ := at?_eq_some_iff.1 hbt
  exact Int.ofNat_le.2 hle

/-- The tokens come from left to right. -/
theorem pairwise_scan (t : Text) : (scan t).Pairwise fun a b => a.start < b.start :=
  (pairwise_stop_le_start t).imp_of_mem fun ha _ hle =>
    Int.lt_of_lt_of_le (start_lt_stop_of_mem_scan ha) hle

end DottedNames.Token
