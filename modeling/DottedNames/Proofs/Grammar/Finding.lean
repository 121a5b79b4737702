import DottedNames.Proofs.Grammar.Recognition
import DottedNames.Proofs.Pattern.Forward

/-!
# Finding names in a window

Each of the patterns of segments, names and dotted names matches wherever the one before it does,
and none of them matches the empty text. So finding all matches gets to the end of every window, and
a letter cannot be left over: a match would start there.

The underscore of a name is the only place with a word boundary, and there the character before the
boundary belongs to the match. Hence none of the patterns looks at what stands before a window.
-/

namespace DottedNames.Grammar

variable {p : Pattern} {c d : Cursor} {x : Char} {t : Text}

/-! ## The three patterns -/

theorem mem_ends_name_of_segment (h : d ∈ segment.ends c) : d ∈ name.ends c := by
  rw [name, Pattern.ends_alt]
  exact List.mem_append_left _ h

theorem mem_ends_dottedName_of_name (h : d ∈ name.ends c) : d ∈ dottedName.ends c := by
  rw [dottedName, Pattern.ends_seq, List.mem_flatMap]
  exact ⟨c, (spells_scopes c c).2 ⟨[], nil_mem_scopes, .refl c⟩, h⟩

theorem cases_of_mem (hp : p ∈ [segment, name, dottedName]) :
    p = segment ∨ p = name ∨ p = dottedName := by
  simpa using hp

/-- What a segment matches, each of the patterns does. -/
theorem mem_ends_of_segment (hp : p ∈ [segment, name, dottedName]) (h : d ∈ segment.ends c) :
    d ∈ p.ends c := by
  have hname := mem_ends_name_of_segment h
  rcases cases_of_mem hp with rfl | rfl | rfl
  · exact h
  · exact hname
  · exact mem_ends_dottedName_of_name hname

/-- What any of the patterns matches, a dotted name does. -/
theorem mem_ends_dottedName (hp : p ∈ [segment, name, dottedName]) (h : d ∈ p.ends c) :
    d ∈ dottedName.ends c := by
  rcases cases_of_mem hp with rfl | rfl | rfl
  · exact mem_ends_dottedName_of_name (mem_ends_name_of_segment h)
  · exact mem_ends_dottedName_of_name h
  · exact h

theorem advances_dottedName : dottedName.Advances := by
  intro c d h
  obtain ⟨t, ht, hread⟩ := mem_ends_dottedName_iff.1 h
  have hpos := List.length_pos_iff.2 (ne_nil_of_mem_dottedNames ht.mem_dottedNames)
  have hposition := hread.position_eq
  omega

theorem advances_of_mem (hp : p ∈ [segment, name, dottedName]) : p.Advances :=
  fun c d h => advances_dottedName c d (mem_ends_dottedName hp h)

/-- At a letter there is a match. -/
theorem matchEnd?_ne_none_of_isAlpha (hp : p ∈ [segment, name, dottedName]) (hread : c.Reads [x] d)
    (hx : x.isAlpha = true) : p.matchEnd? c ≠ none := by
  have hsegment : d ∈ segment.ends c :=
    (spells_segment c d).2 ⟨[x], ⟨x, [], rfl, hx, by simp⟩, hread⟩
  rw [Ne, Pattern.matchEnd?_eq_none_iff]
  exact List.ne_nil_of_mem (mem_ends_of_segment hp hsegment)

/-! ## No match looks behind -/

theorem forward_segment : segment.Forward :=
  (Pattern.forward_oneOf _).seq (Pattern.forward_oneOf _).star

theorem forward_name : name.Forward := forward_segment.alt (Pattern.forward_char_boundary '_')

theorem forward_dottedName : dottedName.Forward :=
  (forward_segment.seq (Pattern.forward_char '.')).star.seq forward_name

theorem forward_of_mem (hp : p ∈ [segment, name, dottedName]) : p.Forward := by
  rcases cases_of_mem hp with rfl | rfl | rfl
  · exact forward_segment
  · exact forward_name
  · exact forward_dottedName

/-- What a method gives in a window, clamped to the text, is what it gives in the text of the window
by itself, moved to the place of the window. A window that ends before it starts holds no match.
Whatever stands before and behind a window, the same text in it gives the same matches. -/
theorem spansBy_window (hp : p ∈ [segment, name, dottedName]) (m : Pattern.Method) (t : Text)
    (pos endpos : Int) :
    (clampPosition t.length endpos < clampPosition t.length pos → p.spansBy m t pos endpos = []) ∧
    (clampPosition t.length pos ≤ clampPosition t.length endpos → ∀ window,
      window = Span.slice ⟨clampPosition t.length pos, clampPosition t.length endpos⟩ t →
      p.spansBy m t pos endpos =
        (p.spansBy m window 0 window.length).map (Span.moved (clampPosition t.length pos)) ∧
      ∀ t', clampPosition t'.length pos = clampPosition t.length pos →
        clampPosition t'.length endpos = clampPosition t.length endpos →
        Span.slice ⟨clampPosition t.length pos, clampPosition t.length endpos⟩ t' = window →
        p.spansBy m t' pos endpos = p.spansBy m t pos endpos) := by
  have hforward := forward_of_mem hp
  have hadvances := advances_of_mem hp
  refine ⟨Pattern.spansBy_of_lt m, fun h window hwindow => ?_⟩
  have halone := hforward.spansBy_eq hadvances m h hwindow
  refine ⟨halone, fun t' hstart hstop hwindow' => ?_⟩
  have hle : clampPosition t'.length pos ≤ clampPosition t'.length endpos := by omega
  have halone' := hforward.spansBy_eq hadvances m hle rfl
  rw [halone', halone, hstart, hstop, hwindow']

/-- Between the last two characters of `a__b` the underscore is a name, as it is between dot and
parenthesis in `(._)`. -/
theorem spansBy_window_underscore :
    name ∈ [segment, name, dottedName] ∧
      name.spansBy .everywhere ['a', '_', '_', 'b'] 2 3 = [⟨2, 3⟩] ∧
      name.spansBy .everywhere ['(', '.', '_', ')'] 2 3 = [⟨2, 3⟩] ∧
      name.spansBy .whole ['a', '_', '_', 'b'] 3 2 = [] := by
  have hname : name ∈ [segment, name, dottedName] := by simp
  obtain ⟨-, hin⟩ := spansBy_window hname .everywhere ['a', '_', '_', 'b'] 2 3
  obtain ⟨halone, hsame⟩ := hin (by decide) ['_'] rfl
  obtain ⟨hempty, -⟩ := spansBy_window hname .whole ['a', '_', '_', 'b'] 3 2
  refine ⟨hname, halone, ?_, hempty (by decide)⟩
  rw [hsame ['(', '.', '_', ')'] (by decide) (by decide) rfl, halone]
  rfl

/-! ## Nothing is left over -/

theorem exists_reads_of_getElem? {i stop : Nat} (hi : i < stop) (hx : t[i]? = some x) :
    ∃ d, (Cursor.ofText (t.take stop) i).Reads [x] d := by
  have htake : (t.take stop)[i]? = some x := by rw [List.getElem?_take_of_lt hi, hx]
  obtain ⟨hlt, rfl⟩ := List.getElem?_eq_some_iff.1 htake
  refine Cursor.exists_reads ⟨(t.take stop).drop (i + 1), ?_⟩
  exact (List.drop_eq_getElem_cons hlt).symm

/-- The spans found in a window, clamped to the text, lie in it, are not empty and are those of the
matches at their starts. They come from left to right and do not overlap. Searching gives the first
one. Where none of them lies there is no match, and every letter of the window lies in one of them.
-/
theorem findAll_covers (hp : p ∈ [segment, name, dottedName]) (t : Text) (pos endpos : Int) :
    (∀ s ∈ p.findAll t pos endpos, clampPosition t.length pos ≤ s.start ∧ s.start < s.stop ∧
      s.stop ≤ clampPosition t.length endpos ∧ p.matchSpan? t s.start endpos = some s) ∧
    (p.findAll t pos endpos).Pairwise (fun a b => a.start < b.start ∧ a.stop ≤ b.start) ∧
    p.search? t pos endpos = (p.findAll t pos endpos).head? ∧
    (∀ i : Nat, clampPosition t.length pos ≤ i → i ≤ clampPosition t.length endpos →
      (∀ s ∈ p.findAll t pos endpos, ¬ s.Covers i) → p.matchSpan? t i endpos = none) ∧
    ∀ (i : Nat) (x : Char), clampPosition t.length pos ≤ i → i < clampPosition t.length endpos →
      t[i]? = some x → x.isAlpha = true → ∃! s, s ∈ p.findAll t pos endpos ∧ s.Covers i := by
  have hadvances := advances_of_mem hp
  have hpairwise := hadvances.pairwise_findAll t pos endpos
  refine ⟨fun s hs => ?_, hpairwise, hadvances.search?_eq_head? t pos endpos,
    fun i => hadvances.matchSpan?_of_outside, fun i x hi hi' hx halpha => ?_⟩
  · obtain ⟨hstart, hlt, hstop⟩ := hadvances.bounds_findAll hs
    exact ⟨hstart, hlt, hstop, hadvances.matchSpan?_of_mem hs⟩
  · have hmatch : p.matchSpan? t i endpos ≠ none := by
      obtain ⟨d, hread⟩ := exists_reads_of_getElem? hi' hx
      rw [Pattern.matchSpan?_natCast hi'.le, Pattern.spanAt?, Ne, Option.map_eq_none_iff]
      exact matchEnd?_ne_none_of_isAlpha hp hread halpha
    obtain ⟨s, hs, hcovers⟩ := hadvances.exists_covers hi hi'.le hmatch
    exact ⟨s, ⟨hs, hcovers⟩, fun r hr => Pattern.eq_of_covers hpairwise hr.1 hs hr.2 hcovers⟩

/-- In `a._b` the match at `a` gives the dot and the underscore back, and the letter behind them
is found by itself. -/
theorem findAll_covers_behind_underscore :
    dottedName ∈ [segment, name, dottedName] ∧
      dottedName.findAll ['a', '.', '_', 'b'] 0 4 = [⟨0, 1⟩, ⟨3, 4⟩] ∧
      dottedName.matchSpan? ['a', '.', '_', 'b'] (2 : Nat) 4 = none ∧
      ∃! s, s ∈ dottedName.findAll ['a', '.', '_', 'b'] 0 4 ∧ s.Covers 3 := by
  have hname : dottedName ∈ [segment, name, dottedName] := by simp
  have hall : dottedName.findAll ['a', '.', '_', 'b'] 0 4 = [⟨0, 1⟩, ⟨3, 4⟩] := rfl
  obtain ⟨-, -, -, hout, hletter⟩ := findAll_covers hname ['a', '.', '_', 'b'] 0 4
  refine ⟨hname, hall, hout 2 (by decide) (by decide) ?_,
    hletter 3 'b' (by decide) (by decide) rfl (by decide)⟩
  rw [hall]
  simp [Span.Covers]

end DottedNames.Grammar
