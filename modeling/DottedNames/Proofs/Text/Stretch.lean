import DottedNames.Text
import Mathlib.Data.List.TakeWhile

/-!
# Stretches

The characters of a text that satisfy a condition, from its start up to the first one that does not.
What follows a part of such a stretch can be told from the stretch alone, as far as a condition is
concerned that only characters of stretches satisfy.
-/

namespace DottedNames.Text

variable {p q : Char → Bool} {text t : Text} {x : Char} {n : Nat}

/-- A stretch is followed by a character that does not belong to it. -/
theorem forall_head?_dropWhile : ∀ x ∈ (text.dropWhile p).head?, p x = false := by
  intro x hx
  have h := List.head?_dropWhile_not p text
  rw [Option.mem_def.1 hx] at h
  exact h

/-- A stretch ends in front of a character that does not belong to it. -/
theorem takeWhile_append_cons (hx : p x = false) (s rest : Text) :
    (s ++ x :: rest).takeWhile p = s.takeWhile p := by
  induction s with
  | nil => simp [hx]
  | cons y s ih =>
    rw [List.cons_append, List.takeWhile_cons, List.takeWhile_cons, ih]

/-- A stretch is what stands before such a character. -/
theorem takeWhile_append_eq {rest : Text} (ht : ∀ x ∈ t, p x = true)
    (hrest : ∀ x ∈ rest.head?, p x = false) : (t ++ rest).takeWhile p = t := by
  have hnil : rest.takeWhile p = [] := by
    cases rest with
    | nil => rfl
    | cons x rest => simp [hrest x rfl]
  rw [List.takeWhile_append_of_pos ht, hnil, List.append_nil]

theorem prefix_takeWhile (h : t <+: text) (ht : ∀ x ∈ t, p x = true) :
    t <+: text.takeWhile p := by
  obtain ⟨rest, rfl⟩ := h
  rw [List.takeWhile_append_of_pos ht]
  exact List.prefix_append t _

/-- Whether a character follows that satisfies `q` is told by the stretch of the characters that
satisfy `p`, if all that satisfy `q` are among them. -/
theorem forall_head?_drop_takeWhile_iff (hqp : ∀ x, q x = true → p x = true)
    (hn : n ≤ (text.takeWhile p).length) :
    (∀ x ∈ ((text.takeWhile p).drop n).head?, q x = false) ↔
      ∀ x ∈ (text.drop n).head?, q x = false := by
  have hsplit : text.drop n = (text.takeWhile p).drop n ++ text.dropWhile p := by
    rw [← List.drop_append_of_le_length hn, List.takeWhile_append_dropWhile]
  rw [hsplit]
  cases (text.takeWhile p).drop n with
  | cons y ys => rfl
  | nil =>
    -- At the end of the stretch the next character satisfies neither of the two.
    simp only [List.head?_nil, Option.not_mem_none, List.nil_append]
    refine ⟨fun _ x hx => ?_, fun _ x hx => hx.elim⟩
    have hnot := forall_head?_dropWhile x hx
    rw [← Bool.not_eq_true] at hnot ⊢
    exact fun hq => hnot (hqp x hq)

end DottedNames.Text
