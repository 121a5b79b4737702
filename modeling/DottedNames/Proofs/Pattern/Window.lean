import DottedNames.Proofs.Pattern.Finding

/-!
# Matching in a window

What is found in a window is a walk from the start of the window to its end, along the text cut
where the window ends. A match at a later place of the window is tried from a cursor on this walk,
so that what is found can be compared with what matches there.
-/

namespace DottedNames

variable {t : Text} {pos endpos : Int}

/-! ## Clamped positions -/

theorem clampPosition_le (length : Nat) (i : Int) : clampPosition length i ≤ length :=
  Nat.min_le_right _ _

theorem clampPosition_natCast {length i : Nat} (h : i ≤ length) : clampPosition length i = i := by
  simp [clampPosition, h]

theorem length_take_clampPosition (t : Text) (i : Int) :
    (t.take (clampPosition t.length i)).length = clampPosition t.length i := by
  rw [List.length_take, Nat.min_eq_left (clampPosition_le t.length i)]

/-! ## The cursors of a window -/

namespace Cursor

variable {c d : Cursor} {u : Text}

theorem ofWindow?_of_le (h : clampPosition t.length pos ≤ clampPosition t.length endpos) :
    ofWindow? t pos endpos =
      some (ofText (t.take (clampPosition t.length endpos)) (clampPosition t.length pos)) :=
  if_pos h

theorem ofWindow?_of_lt (h : clampPosition t.length endpos < clampPosition t.length pos) :
    ofWindow? t pos endpos = none :=
  if_neg (Nat.not_le.2 h)

/-- A window that ends with the text starts at the clamped position. -/
theorem ofWindow?_length (t : Text) (pos : Int) :
    ofWindow? t pos t.length = some (.ofText t (clampPosition t.length pos)) := by
  have hstop : clampPosition t.length t.length = t.length := clampPosition_natCast le_rfl
  have hle : clampPosition t.length pos ≤ clampPosition t.length t.length := by
    rw [hstop]
    exact clampPosition_le t.length pos
  rw [ofWindow?_of_le hle, hstop, List.take_length]

/-- What is ahead of the cursor stands in a text at the position of the cursor. -/
def Within (t : Text) (c : Cursor) : Prop := c.ahead <+: t.drop c.position

theorem Within.of_reads (h : c.Within t) (hread : c.Reads u d) : d.Within t := by
  have hdrop : t.drop d.position = (t.drop c.position).drop u.length := by
    rw [List.drop_drop, hread.position_eq]
  rw [Within, hdrop, ← hread.drop_ahead]
  exact List.IsPrefix.drop h u.length

theorem Within.slice_eq (h : c.Within t) (hread : c.Reads u d) :
    Span.slice ⟨c.position, d.position⟩ t = u := by
  have hprefix : u <+: t.drop c.position := hread.isPrefix.trans h
  have hlength : d.position - c.position = u.length := by
    have hposition := hread.position_eq
    omega
  rw [Span.slice, hlength]
  exact (List.prefix_iff_eq_take.1 hprefix).symm

theorem within_ofText {start stop : Nat} (h : start ≤ stop) (hstop : stop ≤ t.length) :
    (ofText (t.take stop) start).Within t := by
  have hstart : start ≤ (t.take stop).length := by rwa [List.length_take, Nat.min_eq_left hstop]
  rw [Within, position_ofText hstart]
  exact List.IsPrefix.drop (List.take_prefix stop t) start

end Cursor

namespace Pattern

variable {p : Pattern} {s : Span}

/-! ## What is found in a window -/

theorem findAll_of_lt (h : clampPosition t.length endpos < clampPosition t.length pos) :
    p.findAll t pos endpos = [] := by
  rw [findAll, Cursor.ofWindow?_of_lt h]

/-- What is found in a window is the walk along it. -/
theorem Advances.finds_window (hp : p.Advances)
    (h : clampPosition t.length pos ≤ clampPosition t.length endpos) :
    p.Finds (.ofText (t.take (clampPosition t.length endpos)) (clampPosition t.length pos))
      (p.findAll t pos endpos) := by
  rw [findAll, Cursor.ofWindow?_of_le h]
  exact hp.finds _

/-- A match inside a window is tried from a cursor of the text up to the end of the window. -/
theorem matchSpan?_natCast {i : Nat} (hi : i ≤ clampPosition t.length endpos) :
    p.matchSpan? t i endpos = p.spanAt? (.ofText (t.take (clampPosition t.length endpos)) i) := by
  have hclamp : clampPosition t.length i = i :=
    clampPosition_natCast (hi.trans (clampPosition_le t.length endpos))
  rw [matchSpan?, Cursor.ofWindow?_of_le (by rw [hclamp]; exact hi), hclamp, Option.bind_some]

theorem Advances.bounds_findAll (hp : p.Advances) (hs : s ∈ p.findAll t pos endpos) :
    clampPosition t.length pos ≤ s.start ∧ s.start < s.stop ∧
      s.stop ≤ clampPosition t.length endpos := by
  by_cases h : clampPosition t.length pos ≤ clampPosition t.length endpos
  · have hbounds := (hp.finds_window h).bounds s hs
    have hlength := length_take_clampPosition t endpos
    rw [Cursor.position_ofText (by omega)] at hbounds
    simp only [Cursor.ofText, List.length_drop] at hbounds
    omega
  · rw [findAll_of_lt (Nat.not_le.1 h)] at hs
    cases hs

theorem Advances.pairwise_findAll (hp : p.Advances) (t : Text) (pos endpos : Int) :
    (p.findAll t pos endpos).Pairwise fun a b => a.start < b.start ∧ a.stop ≤ b.start := by
  by_cases h : clampPosition t.length pos ≤ clampPosition t.length endpos
  · exact (hp.finds_window h).pairwise
  · rw [findAll_of_lt (Nat.not_le.1 h)]
    exact .nil

/-- What is found is the match at its start. -/
theorem Advances.matchSpan?_of_mem (hp : p.Advances) (hs : s ∈ p.findAll t pos endpos) :
    p.matchSpan? t s.start endpos = some s := by
  have hbounds := hp.bounds_findAll hs
  obtain ⟨u, d, hread, hstart, hspan⟩ := (hp.finds_window (by omega)).exists_spanAt? hs
  rw [hread.eq_ofText, hstart] at hspan
  rw [matchSpan?_natCast (by omega), hspan]

/-- At a position of the window that nothing covers there is no match. -/
theorem Advances.matchSpan?_of_outside (hp : p.Advances) {i : Nat}
    (hi : clampPosition t.length pos ≤ i) (hi' : i ≤ clampPosition t.length endpos)
    (hout : ∀ s ∈ p.findAll t pos endpos, ¬ s.Covers i) : p.matchSpan? t i endpos = none := by
  have hposition : (Cursor.ofText (t.take (clampPosition t.length endpos)) i).position = i :=
    Cursor.position_ofText (by rwa [length_take_clampPosition])
  obtain ⟨u, hread⟩ := Cursor.exists_reads_ofText hi
  have hnone := (hp.finds_window (hi.trans hi')).matchEnd?_eq_none hread
    (by rw [hposition]; exact hout)
  rw [matchSpan?_natCast hi', spanAt?, hnone, Option.map_none]

/-- A position of the window where there is a match is covered. -/
theorem Advances.exists_covers (hp : p.Advances) {i : Nat}
    (hi : clampPosition t.length pos ≤ i) (hi' : i ≤ clampPosition t.length endpos)
    (hmatch : p.matchSpan? t i endpos ≠ none) : ∃ s ∈ p.findAll t pos endpos, s.Covers i := by
  by_contra hnone
  exact hmatch (hp.matchSpan?_of_outside hi hi' fun s hs hcovers => hnone ⟨s, hs, hcovers⟩)

theorem Advances.search?_eq_head? (hp : p.Advances) (t : Text) (pos endpos : Int) :
    p.search? t pos endpos = (p.findAll t pos endpos).head? := by
  by_cases h : clampPosition t.length pos ≤ clampPosition t.length endpos
  · rw [search?, Cursor.ofWindow?_of_le h]
    exact (hp.finds_window h).searchFrom?_eq
  · have hlt := Nat.not_le.1 h
    rw [search?, Cursor.ofWindow?_of_lt hlt, findAll_of_lt hlt]
    rfl

end Pattern

end DottedNames
