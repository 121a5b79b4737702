import DottedNames.Location
import Mathlib.Data.List.Basic

/-!
# Lines

What the table of line starts says about a text is found line by line: in front of a line feed, the
first line starts at position zero and the lines behind it start where they do in what follows, so
many positions further on. An offset in the first line is its column there, and an offset behind it
has the location that it has in what follows, one line further down.
-/

namespace DottedNames

/-- Induction over the lines of a text. -/
@[elab_as_elim]
theorem Text.lines_induction {motive : Text → Prop} (last : ∀ l, '\n' ∉ l → motive l)
    (line : ∀ l rest, '\n' ∉ l → motive rest → motive (l ++ '\n' :: rest)) (t : Text) :
    motive t := by
  induction h : t.length using Nat.strongRecOn generalizing t with
  | ind n ih =>
    by_cases hmem : '\n' ∈ t
    · obtain ⟨l, rest, rfl, hl⟩ := List.eq_append_cons_of_mem hmem
      refine line l rest hl (ih rest.length ?_ rest rfl)
      simp only [List.length_append, List.length_cons] at h
      omega
    · exact last t hmem

namespace Location

variable {l rest : Text} {starts : List Nat} {n offset position : Nat}

/-! ## Line starts -/

theorem startsFrom_add (n position : Nat) (t : Text) :
    startsFrom (n + position) t = (startsFrom position t).map (n + ·) := by
  induction t generalizing position with
  | nil => rfl
  | cons x t ih =>
    simp only [startsFrom, Nat.add_assoc, ih]
    split <;> rfl

theorem startsFrom_of_notMem (h : '\n' ∉ l) : startsFrom position l = [] := by
  induction l generalizing position with
  | nil => rfl
  | cons x l ih =>
    obtain ⟨hx, hl⟩ := not_or.1 (mt List.mem_cons.2 h)
    rw [startsFrom, if_neg (by simpa using Ne.symm hx), ih hl]

theorem startsFrom_append_line (h : '\n' ∉ l) :
    startsFrom position (l ++ '\n' :: rest) =
      (position + l.length + 1) :: startsFrom (position + l.length + 1) rest := by
  induction l generalizing position with
  | nil => rfl
  | cons x l ih =>
    obtain ⟨hx, hl⟩ := not_or.1 (mt List.mem_cons.2 h)
    rw [List.cons_append, startsFrom, if_neg (by simpa using Ne.symm hx), ih hl, List.length_cons,
      Nat.add_assoc position 1, Nat.add_comm 1]

theorem lineStarts_of_notMem (h : '\n' ∉ l) : lineStarts l = [0] := by
  rw [lineStarts, startsFrom_of_notMem h]

/-- The lines behind a line start where they do in what follows, moved behind the line. -/
theorem lineStarts_append_line (h : '\n' ∉ l) :
    lineStarts (l ++ '\n' :: rest) = 0 :: (lineStarts rest).map (l.length + 1 + ·) := by
  rw [lineStarts, startsFrom_append_line h, lineStarts, List.map_cons, ← startsFrom_add]
  simp only [Nat.zero_add, Nat.add_zero]

/-! ## Locations -/

/-- The same column one line further down. -/
def below (p : Location) : Location := ⟨p.line + 1, p.column⟩

/-- An offset before all later lines lies in the first line. -/
theorem ofOffset_cons_zero (h : ∀ s ∈ starts, offset < s) :
    ofOffset (0 :: starts) offset = ⟨1, offset + 1⟩ := by
  have hreached : startsUpTo (0 :: starts) offset = [0] := by
    cases starts with
    | nil => simp [startsUpTo]
    | cons s starts =>
      have hs := h s List.mem_cons_self
      simp [startsUpTo, hs]
  rw [ofOffset, hreached]
  rfl

/-- An offset behind the first line lies in what follows. -/
theorem ofOffset_moved (n offset : Nat) (starts : List Nat) :
    ofOffset (0 :: (0 :: starts).map (n + ·)) (n + offset) =
      (ofOffset (0 :: starts) offset).below := by
  have hreached : startsUpTo (0 :: (0 :: starts).map (n + ·)) (n + offset) =
      0 :: (startsUpTo (0 :: starts) offset).map (n + ·) := by
    rw [startsUpTo, startsUpTo, List.takeWhile_cons_of_pos (by simp), List.takeWhile_map]
    congr 3
    funext s
    simp
  have hne : startsUpTo (0 :: starts) offset ≠ [] := by simp [startsUpTo]
  rw [ofOffset, hreached, ofOffset, below]
  simp only [List.length_cons, List.length_map, Location.mk.injEq, true_and]
  rw [List.getLast?_cons, List.getLast?_map, List.getLast?_eq_some_getLast hne]
  simp only [Option.map_some, Option.getD_some]
  omega

theorem ofOffset_first_line (h : '\n' ∉ l) (hoffset : offset ≤ l.length) :
    ofOffset (lineStarts (l ++ '\n' :: rest)) offset = ⟨1, offset + 1⟩ := by
  rw [lineStarts_append_line h]
  refine ofOffset_cons_zero fun s hs => ?_
  obtain ⟨k, -, rfl⟩ := List.mem_map.1 hs
  omega

theorem ofOffset_later_line (h : '\n' ∉ l) :
    ofOffset (lineStarts (l ++ '\n' :: rest)) (l.length + 1 + offset) =
      (ofOffset (lineStarts rest) offset).below := by
  rw [lineStarts_append_line h]
  exact ofOffset_moved (l.length + 1) offset (startsFrom 0 rest)

theorem ofOffset_only_line (h : '\n' ∉ l) : ofOffset (lineStarts l) offset = ⟨1, offset + 1⟩ := by
  rw [lineStarts_of_notMem h]
  exact ofOffset_cons_zero (by simp)

end Location

end DottedNames
