import DottedNames.Text

/-!
# Rows

A row is a text with a line feed behind it. Rows that are written one after the other are cut at
their ends again, as long as none of them has a character of its own at which it would be cut.
-/

namespace DottedNames.Text

/-- The rows of some texts, one after the other. -/
def rows (ts : List Text) : Text := ts.flatMap (· ++ ['\n'])

variable {p : Char → Bool} {t : Text} {ts : List Text}

theorem rows_cons (t : Text) (ts : List Text) : rows (t :: ts) = t ++ '\n' :: rows ts := by
  unfold rows
  rw [List.flatMap_cons, List.append_assoc]
  rfl

/-- Rows are cut at line feeds, and at nothing else if the texts have nothing to cut at. -/
theorem splitOnP_rows (hp : p '\n' = true) (h : ∀ t ∈ ts, ∀ c ∈ t, p c = false) :
    (rows ts).splitOnP p = ts ++ [[]] := by
  induction ts with
  | nil => rfl
  | cons t ts ih =>
    obtain ⟨ht, hts⟩ := List.forall_mem_cons.1 h
    rw [rows_cons, List.splitOnP_append_cons_of_forall_mem ht '\n' hp, ih hts]
    rfl

theorem splitOn_rows (h : ∀ t ∈ ts, '\n' ∉ t) : (rows ts).splitOn '\n' = ts ++ [[]] := by
  refine splitOnP_rows rfl fun t ht c hc => ?_
  rw [beq_eq_false_iff_ne]
  rintro rfl
  exact h t ht hc

theorem count_rows_cons (t : Text) (ts : List Text) :
    (rows (t :: ts)).count '\n' = t.count '\n' + ((rows ts).count '\n' + 1) := by
  rw [rows_cons, List.count_append, List.count_cons_self]

/-- There is a line feed behind every row. -/
theorem length_le_count_rows (ts : List Text) : ts.length ≤ (rows ts).count '\n' := by
  induction ts with
  | nil => exact Nat.zero_le _
  | cons t ts ih =>
    rw [count_rows_cons, List.length_cons]
    omega

/-- There are no more line feeds than rows exactly if the texts have none. -/
theorem count_rows_eq_length_iff : (rows ts).count '\n' = ts.length ↔ ∀ t ∈ ts, '\n' ∉ t := by
  induction ts with
  | nil => exact iff_of_true rfl (List.forall_mem_nil _)
  | cons t ts ih =>
    have hle := length_le_count_rows ts
    rw [List.forall_mem_cons, ← ih, ← List.count_eq_zero, count_rows_cons, List.length_cons]
    omega

end DottedNames.Text
