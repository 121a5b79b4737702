import DottedNames.Grammar
import DottedNames.Proofs.Grammar.Language
import DottedNames.Proofs.Pattern.Preference
import DottedNames.Proofs.Pattern.Window

/-!
# Recognition takes the longest prefix

The patterns of `Grammar` spell the languages of `Grammar.Language`, and they are greedy, so that
the match which a backtracking search prefers is the longest one. For dotted names the argument is
about where a name can end: giving back a segment with its dot lets a name end before that dot only,
because no name has a dot.
-/

namespace DottedNames

namespace Grammar

variable {c d e : Cursor} {t u : Text}

/-! ## What the patterns match -/

theorem isAlpha_eq (x : Char) : x.isAlpha =
    (decide ('A' ≤ x) && decide (x ≤ 'Z') || decide ('a' ≤ x) && decide (x ≤ 'z')) := by
  rw [← Bool.decide_and]
  rfl

theorem isDigit_eq (x : Char) : x.isDigit = (decide ('0' ≤ x) && decide (x ≤ '9')) := rfl

theorem letter_contains (x : Char) :
    ([.range 'a' 'z', .range 'A' 'Z'] : List ClassItem).any (·.contains x) = x.isAlpha := by
  simp only [List.any_cons, List.any_nil, ClassItem.contains, Bool.or_false, isAlpha_eq]
  exact Bool.or_comm _ _

theorem nameChar_contains (x : Char) :
    ([.single '_', .range 'a' 'z', .range 'A' 'Z', .range '0' '9'] : List ClassItem).any
      (·.contains x) = Text.isNameChar x := by
  have hsingle : ('_' == x) = (x == '_') := BEq.comm
  simp only [List.any_cons, List.any_nil, ClassItem.contains, Bool.or_false, Text.isNameChar,
    Char.isAlphanum, isAlpha_eq, isDigit_eq, hsingle]
  ac_rfl

theorem spells_segment : segment.Spells segments := by
  have h := (Pattern.spells_oneOf [.range 'a' 'z', .range 'A' 'Z']).seq
    (Pattern.spells_oneOf [.single '_', .range 'a' 'z', .range 'A' 'Z', .range '0' '9']).star
  simp only [letter_contains, nameChar_contains] at h
  have hsegments : segments = Pattern.oneOfLanguage Char.isAlpha *
      KStar.kstar (Pattern.oneOfLanguage Text.isNameChar) := by
    ext t
    constructor
    · rintro ⟨x, xs, rfl, hx, hxs⟩
      exact ⟨[x], ⟨x, hx, rfl⟩, xs, Pattern.mem_kstar_oneOfLanguage_iff.2 hxs, rfl⟩
    · rintro ⟨_, ⟨x, hx, rfl⟩, xs, hxs, rfl⟩
      exact ⟨x, xs, rfl, hx, Pattern.mem_kstar_oneOfLanguage_iff.1 hxs⟩
  rw [hsegments]
  exact h

theorem spells_scope : (Pattern.seq segment (.char '.')).Spells (segments * dot) :=
  spells_segment.seq (Pattern.spells_char '.')

theorem spells_scopes : (Pattern.star (.seq segment (.char '.'))).Spells scopes :=
  spells_scope.star

/-- Behind an underscore there is a word boundary unless a name character follows. -/
theorem atBoundary_of_reads_underscore (h : c.Reads ['_'] d) :
    d.atBoundary = true ↔ ∀ x ∈ d.ahead.head?, Text.isNameChar x = false := by
  have hbefore : Cursor.isWord d.before = true := by
    rw [h.before_eq]
    rfl
  rw [Cursor.atBoundary, hbefore]
  cases d.ahead.head? <;> simp [Cursor.isWord]

theorem mem_ends_name_iff :
    d ∈ name.ends c ↔ (∃ t ∈ segments, c.Reads t d) ∨
      (c.Reads ['_'] d ∧ ∀ x ∈ d.ahead.head?, Text.isNameChar x = false) := by
  rw [name, Pattern.ends_alt, List.mem_append, spells_segment c d, Pattern.ends_seq,
    List.mem_flatMap]
  refine or_congr_right ⟨?_, ?_⟩
  · rintro ⟨e, he, hd⟩
    obtain ⟨t, rfl, hread⟩ := (Pattern.spells_char '_' c e).1 he
    rw [Pattern.ends_boundary] at hd
    split at hd
    · next hb =>
      rw [List.mem_singleton.1 hd]
      exact ⟨hread, (atBoundary_of_reads_underscore hread).1 hb⟩
    · cases hd
  · rintro ⟨hread, hnext⟩
    refine ⟨d, (Pattern.spells_char '_' c d).2 ⟨['_'], rfl, hread⟩, ?_⟩
    rw [Pattern.ends_boundary, if_pos ((atBoundary_of_reads_underscore hread).2 hnext)]
    exact List.mem_singleton_self d

/-- A match of the pattern of names reads a name. -/
theorem exists_reads_of_mem_ends_name (h : d ∈ name.ends c) : ∃ n ∈ names, c.Reads n d := by
  rcases mem_ends_name_iff.1 h with ⟨t, ht, hread⟩ | ⟨hread, -⟩
  · exact ⟨t, .inl ht, hread⟩
  · exact ⟨['_'], .inr rfl, hread⟩

/-- A match of the pattern of dotted names reads a prefix that may be recognised. -/
theorem mem_ends_dottedName_iff :
    d ∈ dottedName.ends c ↔ ∃ t, Eligible c.ahead t ∧ c.Reads t d := by
  rw [dottedName, Pattern.ends_seq, List.mem_flatMap]
  constructor
  · rintro ⟨e, he, hd⟩
    obtain ⟨u, hu, hce⟩ := (spells_scopes c e).1 he
    rcases mem_ends_name_iff.1 hd with ⟨s, hs, hed⟩ | ⟨hed, hnext⟩
    · have hcd := hce.trans hed
      refine ⟨u ++ s, ⟨hcd.isPrefix, ⟨u, hu, s, .inl hs, rfl⟩, fun hlast => ?_⟩, hcd⟩
      obtain ⟨ss, -, hpieces⟩ := pieces_append hu (dot_notMem_of_mem_segments hs)
      rw [hpieces, List.getLast?_concat] at hlast
      exact absurd (Option.some.inj hlast ▸ hs) underscore_notMem_segments
    · have hcd := hce.trans hed
      refine ⟨u ++ ['_'], ⟨hcd.isPrefix, ⟨u, hu, ['_'], .inr rfl, rfl⟩, fun _ => ?_⟩, hcd⟩
      rw [hcd.drop_ahead]
      exact hnext
  · rintro ⟨t, ht, hcd⟩
    obtain ⟨u, hu, n, hn, rfl⟩ := ht.mem_dottedNames
    obtain ⟨e, hce, hed⟩ := hcd.split
    refine ⟨e, (spells_scopes c e).2 ⟨u, hu, hce⟩, mem_ends_name_iff.2 ?_⟩
    rcases hn with hn | rfl
    · exact .inl ⟨n, hn, hed⟩
    · obtain ⟨ss, -, hpieces⟩ := pieces_append hu (t := ['_']) (by decide)
      refine .inr ⟨hed, ?_⟩
      rw [← hcd.drop_ahead]
      exact ht.stops (by rw [hpieces, List.getLast?_concat])

/-! ## The order of the ends -/

theorem greedy_segment : segment.Greedy :=
  (Pattern.determinate_oneOf _).seq_greedy (Pattern.determinate_oneOf _).star_greedy

/-- A segment with its dot can be read in one way only: the dot is the first one ahead. -/
theorem determinate_scope : (Pattern.seq segment (.char '.')).Determinate := by
  have hdot : ∀ {c d : Cursor}, d ∈ (Pattern.char '.').ends c → c.Reads ['.'] d := by
    intro c d h
    obtain ⟨t, rfl, hread⟩ := (Pattern.spells_char '.' c d).1 h
    exact hread
  have hgreedy : (Pattern.seq segment (.char '.')).Greedy := by
    refine greedy_segment.seq (Pattern.determinate_char '.').greedy ?_
    intro c d e _ _ hde d' hd' e' he'
    have h1 := (hdot hd').position_eq
    have h2 := (hdot he').position_eq
    simp only [Pattern.Beyond] at hde ⊢
    omega
  refine hgreedy.determinate fun c d e hd he => ?_
  obtain ⟨_, ⟨s, hs, _, rfl, rfl⟩, hcd⟩ := (spells_scope c d).1 hd
  obtain ⟨_, ⟨r, hr, _, rfl, rfl⟩, hce⟩ := (spells_scope c e).1 he
  have hahead : s ++ '.' :: d.ahead = r ++ '.' :: e.ahead := by
    simpa using hcd.ahead_eq.symm.trans hce.ahead_eq
  have hsr : s = r := by
    have hs' := List.splitOn_append_cons_self_of_not_mem (dot_notMem_of_mem_segments hs) d.ahead
    have hr' := List.splitOn_append_cons_self_of_not_mem (dot_notMem_of_mem_segments hr) e.ahead
    rw [hahead, hr'] at hs'
    exact (List.cons.inj hs').1.symm
  rw [hcd.position_eq, hce.position_eq, hsr]

theorem greedy_name : name.Greedy := by
  intro c
  rw [name, Pattern.ends_alt, List.pairwise_append]
  refine ⟨greedy_segment c, ?_, ?_⟩
  · exact ((Pattern.determinate_char '_').seq Pattern.determinate_boundary).greedy c
  · -- A segment starts with a letter, so the two alternatives exclude each other.
    intro d hd e he
    obtain ⟨_, ⟨x, xs, rfl, hx, -⟩, hcd⟩ := (spells_segment c d).1 hd
    rw [Pattern.ends_seq, List.mem_flatMap] at he
    obtain ⟨r, hr, -⟩ := he
    obtain ⟨t, rfl, hcr⟩ := (Pattern.spells_char '_' c r).1 hr
    have hahead := hcd.ahead_eq.symm.trans hcr.ahead_eq
    obtain ⟨rfl, -⟩ := List.cons.inj hahead
    exact absurd hx (by decide)

/-- A name behind scopes ends before the last dot of any longer scopes. -/
theorem length_append_name_lt {v n ahead : Text} (hu : u ∈ scopes) (hn : n ∈ names)
    (hlt : v.length < u.length) (hu' : u <+: ahead) (hvn : v ++ n <+: ahead) :
    (v ++ n).length < u.length := by
  -- Otherwise the name would reach over the dot that ends the longer scopes.
  by_contra hge
  rw [Nat.not_lt] at hge
  have hne : u ≠ [] := List.ne_nil_of_length_pos (Nat.zero_lt_of_lt hlt)
  have hvu : v <+: u := List.prefix_of_prefix_length_le
    ((List.prefix_append v n).trans hvn) hu' hlt.le
  obtain ⟨w, rfl⟩ := hvu
  have hw : w <+: n := by
    have h := List.prefix_of_prefix_length_le hu' hvn hge
    exact (List.prefix_append_right_inj v).1 h
  have hwne : w ≠ [] := by
    rintro rfl
    simp at hlt
  have hlast := getLast?_of_mem_scopes hu hne
  rw [List.getLast?_append_of_ne_nil _ hwne] at hlast
  exact dot_notMem_of_mem_names hn (hw.subset (List.mem_of_getLast? hlast))

theorem greedy_dottedName : dottedName.Greedy := by
  refine determinate_scope.star_greedy.seq greedy_name ?_
  intro c d e hd he hde d' hd' e' he'
  obtain ⟨u, hu, hcd⟩ := (spells_scopes c d).1 hd
  obtain ⟨v, -, hce⟩ := (spells_scopes c e).1 he
  obtain ⟨m, -, hdd'⟩ := exists_reads_of_mem_ends_name hd'
  obtain ⟨n, hn, hee'⟩ := exists_reads_of_mem_ends_name he'
  have hce' := hce.trans hee'
  simp only [Pattern.Beyond] at hde ⊢
  have hlt : v.length < u.length := by
    have h1 := hcd.position_eq
    have h2 := hce.position_eq
    omega
  have hshort := length_append_name_lt hu hn hlt hcd.isPrefix hce'.isPrefix
  have h1 := hcd.position_eq
  have h2 := hdd'.position_eq
  have h3 := hce'.position_eq
  omega

/-! ## The preferred match -/

/-- The preferred match of a dotted name reads the longest prefix that may be recognised. -/
theorem matchEnd?_dottedName_eq_some_iff :
    dottedName.matchEnd? c = some d ↔ ∃ t, Text.Longest (Eligible c.ahead) t ∧ c.Reads t d := by
  rw [greedy_dottedName.matchEnd?_eq_some_iff, mem_ends_dottedName_iff]
  constructor
  · rintro ⟨⟨t, ht, hcd⟩, hmax⟩
    refine ⟨t, ⟨ht, fun u hu => ?_⟩, hcd⟩
    obtain ⟨e, hce⟩ := Cursor.exists_reads hu.isPrefix
    have h1 := hcd.position_eq
    have h2 := hce.position_eq
    rcases hmax e (mem_ends_dottedName_iff.2 ⟨u, hu, hce⟩) with rfl | h
    · omega
    · simp only [Pattern.Beyond] at h
      omega
  · rintro ⟨t, ht, hcd⟩
    refine ⟨⟨t, ht.holds, hcd⟩, fun e he => ?_⟩
    obtain ⟨u, hu, hce⟩ := mem_ends_dottedName_iff.1 he
    have h1 := hcd.position_eq
    have h2 := hce.position_eq
    rcases (ht.length_le u hu).lt_or_eq with hlt | heq
    · right
      simp only [Pattern.Beyond]
      omega
    · left
      have hut : u = t :=
        (List.prefix_of_prefix_length_le hu.isPrefix ht.holds.isPrefix heq.le).eq_of_length heq
      exact (hut ▸ hce).unique hcd

theorem matchEnd?_dottedName_eq_none_iff :
    dottedName.matchEnd? c = none ↔ ∀ t, ¬ Eligible c.ahead t := by
  rw [Pattern.matchEnd?_eq_none_iff, List.eq_nil_iff_forall_not_mem]
  constructor
  · intro h t ht
    obtain ⟨d, hcd⟩ := Cursor.exists_reads ht.isPrefix
    exact h d (mem_ends_dottedName_iff.2 ⟨t, ht, hcd⟩)
  · intro h d hd
    obtain ⟨t, ht, -⟩ := mem_ends_dottedName_iff.1 hd
    exact h t ht

end Grammar

/-! ## Recognition at a position of a text -/

section Recognition

open Grammar

/-- What is recognised is what the preferred match reads. -/
theorem recognizeAt?_eq_some_iff_reads {t r : Text} {pos : Int} :
    recognizeAt? t pos = some r ↔
      ∃ d, dottedName.matchEnd? (.ofText t (clampPosition t.length pos)) = some d ∧
        r = (t.drop (clampPosition t.length pos)).take
          (d.position - clampPosition t.length pos) := by
  have hstart : min (clampPosition t.length pos) t.length = clampPosition t.length pos :=
    Nat.min_eq_left (clampPosition_le t.length pos)
  simp only [recognizeAt?, Pattern.matchSpan?, Cursor.ofWindow?_length, Option.bind_some,
    Pattern.spanAt?, Option.map_map, Option.map_eq_some_iff, Function.comp_apply, Span.slice]
  refine exists_congr fun d => and_congr_right fun _ => ?_
  rw [Cursor.ofText, hstart, eq_comm]

theorem recognizeAt?_eq_some_iff {t r : Text} {pos : Int} :
    recognizeAt? t pos = some r ↔
      Text.Longest (Eligible (t.drop (clampPosition t.length pos))) r := by
  have hposition : (Cursor.ofText t (clampPosition t.length pos)).position =
      clampPosition t.length pos := Cursor.position_ofText (clampPosition_le t.length pos)
  rw [recognizeAt?_eq_some_iff_reads]
  constructor
  · rintro ⟨d, hd, rfl⟩
    obtain ⟨u, hu, hread⟩ := matchEnd?_dottedName_eq_some_iff.1 hd
    have htake := hread.take_ahead
    rw [hposition] at htake
    exact htake ▸ hu
  · intro hr
    obtain ⟨d, hread⟩ := Cursor.exists_reads hr.holds.isPrefix
      (c := .ofText t (clampPosition t.length pos))
    refine ⟨d, matchEnd?_dottedName_eq_some_iff.2 ⟨r, hr, hread⟩, ?_⟩
    have htake := hread.take_ahead
    rw [hposition] at htake
    exact htake.symm

theorem recognizeAt?_eq_none_iff {t : Text} {pos : Int} :
    recognizeAt? t pos = none ↔ ∀ r, ¬ Eligible (t.drop (clampPosition t.length pos)) r := by
  have h : recognizeAt? t pos = none ↔
      dottedName.matchEnd? (.ofText t (clampPosition t.length pos)) = none := by
    simp [recognizeAt?, Pattern.matchSpan?, Cursor.ofWindow?_length, Pattern.spanAt?]
  rw [h, matchEnd?_dottedName_eq_none_iff]
  rfl

/-- An integer of 64 bits is taken as a position, and any text can be matched. -/
theorem recognize_text_int (t : Text) {pos : Int} (hlow : -positionBound ≤ pos)
    (hhigh : pos < positionBound) :
    recognize (.text t) (.int pos) = .ok (recognizeAt? t pos) := by
  have hpos : (Datum.int pos).toPosition = .ok pos := if_pos ⟨hlow, hhigh⟩
  simp only [recognize, Datum.toWindow, hpos]
  rfl

/-- At a position of 64 bits, clamped to the text, exactly the longest prefix that may be recognised
is recognised, and nothing is recognised exactly where no prefix may be. -/
theorem recognize_eq_longest (t : Text) (pos : Int) (hlow : -positionBound ≤ pos)
    (hhigh : pos < positionBound) :
    (∀ r, recognize (.text t) (.int pos) = .ok (some r) ↔
      Text.Longest (Eligible (t.drop (clampPosition t.length pos))) r) ∧
    (recognize (.text t) (.int pos) = .ok none ↔
      ∀ r, ¬ Eligible (t.drop (clampPosition t.length pos)) r) := by
  rw [recognize_text_int t hlow hhigh]
  refine ⟨fun r => ?_, ?_⟩
  · rw [Except.ok.injEq, recognizeAt?_eq_some_iff]
  · rw [Except.ok.injEq, recognizeAt?_eq_none_iff]

/-- In `(a._b` the longest prefix behind the parenthesis is `a`: the underscore runs into `b`. -/
theorem recognize_eq_longest_before_underscore :
    (-positionBound ≤ 1 ∧ (1 : Int) < positionBound) ∧
      recognize (.text ['(', 'a', '.', '_', 'b']) (.int 1) = .ok (some ['a']) ∧
      Text.Longest (Eligible ['a', '.', '_', 'b']) ['a'] := by
  have hrun : recognize (.text ['(', 'a', '.', '_', 'b']) (.int 1) = .ok (some ['a']) := rfl
  exact ⟨by decide, hrun, ((recognize_eq_longest _ 1 (by decide) (by decide)).1 _).1 hrun⟩

end Recognition

end DottedNames
