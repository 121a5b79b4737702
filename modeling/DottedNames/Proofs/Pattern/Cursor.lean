import DottedNames.Pattern
import Mathlib.Data.List.Infix

/-!
# Moving along a text

A cursor `c` reads a text `t` up to a cursor `d` when `t` is what stands between the two. The
cursors that can be reached by reading are those that `Cursor.onwards` lists, from left to right; a
search through a text visits them one after the other.
-/

namespace DottedNames

/-! ## Reading -/

/-- Reading the text `t` at the cursor `c` leads to the cursor `d`. -/
structure Cursor.Reads (c : Cursor) (t : Text) (d : Cursor) : Prop where
  /-- The text stands just ahead. -/
  ahead_eq : c.ahead = t ++ d.ahead
  /-- Each character is one position. -/
  position_eq : d.position = c.position + t.length
  /-- The character before the new cursor is the last one that was read. -/
  before_eq : d.before = t.getLast?.or c.before

namespace Cursor

variable {c d e : Cursor} {t u : Text}

theorem Reads.refl (c : Cursor) : c.Reads [] c := ⟨rfl, rfl, rfl⟩

/-- A character that stands ahead can be read. -/
theorem reads_singleton (position : Nat) (before : Option Char) (x : Char) (ahead : Text) :
    Cursor.Reads ⟨position, before, x :: ahead⟩ [x] ⟨position + 1, some x, ahead⟩ :=
  ⟨rfl, rfl, rfl⟩

theorem Reads.trans (h : c.Reads t d) (k : d.Reads u e) : c.Reads (t ++ u) e where
  ahead_eq := by rw [h.ahead_eq, k.ahead_eq, List.append_assoc]
  position_eq := by rw [k.position_eq, h.position_eq, List.length_append, Nat.add_assoc]
  before_eq := by rw [k.before_eq, h.before_eq, List.getLast?_append, Option.or_assoc]

/-- What is read can be read in two steps. -/
theorem Reads.split (h : c.Reads (t ++ u) e) : ∃ d, c.Reads t d ∧ d.Reads u e := by
  refine ⟨⟨c.position + t.length, t.getLast?.or c.before, u ++ e.ahead⟩, ⟨?_, rfl, rfl⟩,
    ⟨rfl, ?_, ?_⟩⟩
  · rw [h.ahead_eq, List.append_assoc]
  · rw [h.position_eq, List.length_append, Nat.add_assoc]
  · rw [h.before_eq, List.getLast?_append, Option.or_assoc]

/-- A text that stands ahead can be read. -/
theorem exists_reads (h : t <+: c.ahead) : ∃ d, c.Reads t d := by
  obtain ⟨rest, hrest⟩ := h
  exact ⟨⟨c.position + t.length, t.getLast?.or c.before, rest⟩, ⟨hrest.symm, rfl, rfl⟩⟩

theorem Reads.isPrefix (h : c.Reads t d) : t <+: c.ahead := ⟨d.ahead, h.ahead_eq.symm⟩

theorem Reads.drop_ahead (h : c.Reads t d) : c.ahead.drop t.length = d.ahead := by
  rw [h.ahead_eq, List.drop_left]

/-- The number of positions passed tells what was read. -/
theorem Reads.take_ahead (h : c.Reads t d) : c.ahead.take (d.position - c.position) = t := by
  rw [h.position_eq, Nat.add_sub_cancel_left, h.ahead_eq, List.take_left]

/-- What is read determines where reading ends. -/
theorem Reads.unique (h : c.Reads t d) (k : c.Reads t e) : d = e := by
  have hpos : d.position = e.position := by rw [h.position_eq, k.position_eq]
  have hbefore : d.before = e.before := by rw [h.before_eq, k.before_eq]
  have hahead : d.ahead = e.ahead := by rw [← h.drop_ahead, k.drop_ahead]
  cases d
  cases e
  simp_all

/-- The two cursors around one character. -/
theorem Reads.exists_eq {x : Char} (h : c.Reads [x] d) : ∃ position before ahead,
    c = ⟨position, before, x :: ahead⟩ ∧ d = ⟨position + 1, some x, ahead⟩ := by
  obtain ⟨position, before, ahead⟩ := c
  obtain rfl : ahead = x :: d.ahead := h.ahead_eq
  exact ⟨position, before, d.ahead, rfl, h.unique (reads_singleton position before x d.ahead)⟩

/-- Of two places that can be read to, the further one can be read to from the other. -/
theorem Reads.between (h : c.Reads t d) (k : c.Reads u e) (hle : d.position ≤ e.position) :
    ∃ v, d.Reads v e := by
  have h1 := h.position_eq
  have h2 := k.position_eq
  obtain ⟨v, rfl⟩ := List.prefix_of_prefix_length_le h.isPrefix k.isPrefix (by omega)
  obtain ⟨d', hcd, hde⟩ := k.split
  exact ⟨v, h.unique hcd ▸ hde⟩

theorem Reads.length_ahead (h : c.Reads t d) : c.ahead.length = t.length + d.ahead.length := by
  rw [h.ahead_eq, List.length_append]

/-! ## All cursors of a text -/

/-- The cursors from a place of a text on, the last one at its end. -/
def onwards (position : Nat) (before : Option Char) : Text → List Cursor
  | [] => [⟨position, before, []⟩]
  | x :: ahead => ⟨position, before, x :: ahead⟩ :: onwards (position + 1) (some x) ahead

/-- The cursors of a text. -/
def all (t : Text) : List Cursor := onwards 0 none t

theorem mem_onwards_iff {position : Nat} {before : Option Char} {ahead : Text} :
    d ∈ onwards position before ahead ↔ ∃ t, Reads ⟨position, before, ahead⟩ t d := by
  induction ahead generalizing position before with
  | nil =>
    rw [onwards, List.mem_singleton]
    constructor
    · rintro rfl
      exact ⟨[], .refl _⟩
    · rintro ⟨t, h⟩
      have ht : t = [] := List.prefix_nil.1 h.isPrefix
      subst ht
      exact h.unique (.refl _)
  | cons x ahead ih =>
    rw [onwards, List.mem_cons, ih]
    constructor
    · rintro (rfl | ⟨t, h⟩)
      · exact ⟨[], .refl _⟩
      · exact ⟨[x] ++ t, (reads_singleton position before x ahead).trans h⟩
    · rintro ⟨t, h⟩
      cases t with
      | nil => exact .inl (h.unique (.refl _))
      | cons y t =>
        obtain ⟨e, he, hrest⟩ := Reads.split (t := [y]) h
        obtain rfl : x = y := (List.cons.inj he.ahead_eq).1
        rw [he.unique (reads_singleton position before x ahead)] at hrest
        exact .inr ⟨t, hrest⟩

theorem mem_all_iff {t : Text} : d ∈ all t ↔ ∃ u, Reads ⟨0, none, t⟩ u d := mem_onwards_iff

/-- Each of the cursors can be reached from those before it by reading something. -/
theorem pairwise_reads_onwards (position : Nat) (before : Option Char) (ahead : Text) :
    (onwards position before ahead).Pairwise fun d e => ∃ t, t ≠ [] ∧ d.Reads t e := by
  induction ahead generalizing position before with
  | nil => exact List.pairwise_singleton _ _
  | cons x ahead ih =>
    refine List.pairwise_cons.2 ⟨fun e he => ?_, ih (position + 1) (some x)⟩
    obtain ⟨t, ht⟩ := mem_onwards_iff.1 he
    exact ⟨[x] ++ t, by simp, (reads_singleton position before x ahead).trans ht⟩

/-- The cursors come from left to right. -/
theorem pairwise_onwards (position : Nat) (before : Option Char) (ahead : Text) :
    (onwards position before ahead).Pairwise fun d e => d.position < e.position := by
  refine (pairwise_reads_onwards position before ahead).imp ?_
  rintro d e ⟨t, hne, hread⟩
  have hpos : 0 < t.length := List.length_pos_iff.2 hne
  have hposition := hread.position_eq
  omega

/-- The characters before a place of a text are read on the way to it. -/
theorem reads_ofText (t : Text) (position : Nat) :
    Reads ⟨0, none, t⟩ (t.take position) (ofText t position) := by
  refine ⟨(List.take_append_drop position t).symm, ?_, ?_⟩
  · simp [ofText]
  · simp [ofText]

/-- A cursor in front of a character of a text, or at its end, is one of its cursors. -/
theorem ofText_mem_all (t : Text) (position : Nat) : ofText t position ∈ all t :=
  mem_all_iff.2 ⟨_, reads_ofText t position⟩

/-- The cursors of a text are determined by their positions. -/
theorem eq_ofText_of_mem_all {t : Text} (h : d ∈ all t) : d = ofText t d.position := by
  obtain ⟨u, hread⟩ := mem_all_iff.1 h
  have hposition : d.position = u.length := by simpa using hread.position_eq
  have htake : t.take d.position = u := by
    rw [hposition]
    exact (List.prefix_iff_eq_take.1 hread.isPrefix).symm
  have h := reads_ofText t d.position
  rw [htake] at h
  exact hread.unique h

theorem position_le_of_mem_all {t : Text} (h : d ∈ all t) : d.position ≤ t.length := by
  obtain ⟨u, hread⟩ := mem_all_iff.1 h
  have hposition : d.position = u.length := by simpa using hread.position_eq
  rw [hposition]
  exact hread.isPrefix.length_le

theorem Reads.eq_ofText {text : Text} {position : Nat} (h : (ofText text position).Reads t d) :
    d = ofText text d.position :=
  eq_ofText_of_mem_all (mem_all_iff.2 ⟨_, (reads_ofText text position).trans h⟩)

theorem position_ofText {t : Text} {position : Nat} (h : position ≤ t.length) :
    (ofText t position).position = position :=
  Nat.min_eq_left h

/-- Of two places of a text, the further one can be read to from the other. -/
theorem exists_reads_ofText {t : Text} {i j : Nat} (hij : i ≤ j) :
    ∃ u, (ofText t i).Reads u (ofText t j) := by
  refine (reads_ofText t i).between (reads_ofText t j) ?_
  simp only [ofText]
  omega

end Cursor

end DottedNames
