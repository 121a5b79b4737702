import DottedNames.Text
import Mathlib.Data.List.Infix

/-!
# The longest prefix with a property

Recognition in running text is a matter of taking the longest of several prefixes. `Longest` says
what that means for a property of texts, and `longestPrefix?` computes it by trying the prefixes of
a text in the order of their lengths.
-/

namespace DottedNames.Text

/-- A text has a property, and no text that has it is longer. -/
structure Longest (P : Text → Prop) (t : Text) : Prop where
  /-- The text has the property. -/
  holds : P t
  /-- No text that has the property is longer. -/
  length_le : ∀ u, P u → u.length ≤ t.length

/-- The longest prefix of a text that has a property. -/
def longestPrefix? (P : Text → Prop) [DecidablePred P] (text : Text) : Option Text :=
  (text.inits.filter P).getLast?

variable {P Q : Text → Prop} {text t u : Text}

theorem Longest.congr (h : ∀ t, P t ↔ Q t) : Longest P t ↔ Longest Q t := by
  have hPQ : P = Q := funext fun t => propext (h t)
  rw [hPQ]

/-- Of the prefixes of one text, only one is the longest with a property. -/
theorem Longest.unique (hP : ∀ t, P t → t <+: text) (ht : Longest P t) (hu : Longest P u) :
    t = u :=
  (List.prefix_of_prefix_length_le (hP t ht.holds) (hP u hu.holds)
    (hu.length_le t ht.holds)).eq_of_length_le (ht.length_le u hu.holds)

theorem pairwise_length_inits (text : Text) :
    text.inits.Pairwise fun t u => t.length < u.length := by
  rw [List.pairwise_iff_getElem]
  intro i j hi hj hij
  rw [List.length_inits] at hi hj
  simp only [List.getElem_inits, List.length_take]
  omega

/-- The prefix that is computed is the longest one. -/
theorem longestPrefix?_eq_some_iff [DecidablePred P] (hP : ∀ t, P t → t <+: text) :
    longestPrefix? P text = some t ↔ Longest P t := by
  have hmem : ∀ u, u ∈ text.inits.filter P ↔ P u := by
    intro u
    rw [List.mem_filter, List.mem_inits, decide_eq_true_iff]
    exact ⟨And.right, fun h => ⟨hP u h, h⟩⟩
  have hlt := (pairwise_length_inits text).filter (fun u => decide (P u))
  unfold longestPrefix?
  rcases List.eq_nil_or_concat (text.inits.filter P) with hnil | ⟨init, last, hconcat⟩
  · have hnone : ∀ u, ¬ P u := fun u hu => by simpa [hnil] using (hmem u).2 hu
    rw [hnil]
    simp only [List.getLast?_nil, reduceCtorEq, false_iff]
    exact fun h => hnone t h.holds
  · rw [List.concat_eq_append] at hconcat
    have hlast : Longest P last := by
      refine ⟨(hmem last).1 (by simp [hconcat]), fun u hu => ?_⟩
      have hu' := (hmem u).2 hu
      rw [hconcat, List.mem_append, List.mem_singleton] at hu'
      rw [hconcat, List.pairwise_append] at hlt
      rcases hu' with h | rfl
      · exact (hlt.2.2 u h last (List.mem_singleton_self last)).le
      · exact le_rfl
    rw [hconcat, List.getLast?_concat, Option.some_inj]
    constructor
    · rintro rfl
      exact hlast
    · intro ht
      exact hlast.unique hP ht

end DottedNames.Text
