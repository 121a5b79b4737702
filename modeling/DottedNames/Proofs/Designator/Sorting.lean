import DottedNames.Proofs.Designator.Order
import DottedNames.Proofs.Operand.Sorting

/-!
# Sorting segments and names

Two bare segments are not ordered, so a list with two of them may be refused. Any two elements of a
list with one bare segment at most are comparable, and whichever of the two is asked, the answer is
that of the texts of their segments (`Designator.orderedBy_of_comparable`). So such a list is sorted
by a key, without a fault.
-/

namespace DottedNames.Designator

variable {x y : Designator} {α : Type} {item : α → Designator} {xs : List α}

/-- Whether a designator is a bare segment. -/
def isSegment : Designator → Bool
  | .segment _ => true
  | .name _ => false

theorem comparable_of_not_isSegment (h : x.isSegment = false) (y : Designator) :
    Comparable x y := by
  cases x with
  | segment s => cases h
  | name p => exact comparable_name_left p y

/-- All pairs of a list with one bare segment at most are comparable. -/
theorem pairwise_comparable (h : xs.countP (fun a => (item a).isSegment) ≤ 1) :
    xs.Pairwise fun a b => Comparable (item a) (item b) := by
  induction xs with
  | nil => exact List.Pairwise.nil
  | cons a xs ih =>
    rw [List.countP_cons] at h
    refine List.pairwise_cons.2 ⟨fun b hb => ?_, ih (by omega)⟩
    by_cases ha : (item a).isSegment = true
    · have hrest : xs.countP (fun a => (item a).isSegment) = 0 := by
        rw [if_pos ha] at h
        omega
      have hname : ¬ (item b).isSegment = true := List.countP_eq_zero.1 hrest b hb
      exact (comparable_of_not_isSegment (Bool.eq_false_iff.2 hname) (item a)).symm
    · exact comparable_of_not_isSegment (Bool.eq_false_iff.2 ha) (item b)

theorem orderedBy_of_comparable {a b : α} (h : Comparable (item a) (item b)) :
    Operand.OrderedBy (fun a => .designator (item a)) (fun a => (item a).toQualName.texts) a b :=
  ⟨Operand.related_lt_of_comparable h, Operand.related_lt_of_comparable h.symm⟩

/-- A list of names and of one bare segment at most is sorted without a fault, whatever its elements
carry besides. The result has the same elements in the order of the texts of their segments, the
segment counting as its simple name, ascending or descending as it was asked for. Elements that are
equal, such as the segment and the simple name made of it, keep their order in either direction. No
other list is in order like this, so any way of sorting that keeps equal elements in order has this
result. -/
theorem sort_isSorting (descending : Bool) (item : α → Designator) (xs : List α)
    (h : xs.countP (fun a => (item a).isSegment) ≤ 1) :
    ∃ ys : List α,
      Operand.sort descending (xs.map fun a => .designator (item a)) =
        .ok (ys.map fun a => .designator (item a)) ∧
      ys.Perm xs ∧
      (ys.Pairwise fun a b =>
        if descending then (item b).toQualName.texts ≤ (item a).toQualName.texts
        else (item a).toQualName.texts ≤ (item b).toQualName.texts) ∧
      (∀ x : Designator,
        ys.filter (fun a => (item a).same x) = xs.filter (fun a => (item a).same x)) ∧
      ∀ zs, Operand.IsSorting descending (fun a => (item a).toQualName.texts) xs zs → zs = ys := by
  have hcomparable := (pairwise_comparable h).imp fun {_ _} => orderedBy_of_comparable
  have hsorting : Operand.IsSorting descending (fun a => (item a).toQualName.texts) xs _ :=
    Operand.isSorting_sortedIn descending
  have hequal : ∀ (x : Designator) (a : α)
      [Decidable ((item a).toQualName.texts = x.toQualName.texts)],
      decide ((item a).toQualName.texts = x.toQualName.texts) = (item a).same x := by
    intro x a _
    rw [Bool.eq_iff_iff, decide_eq_true_iff, same_iff_texts_eq]
  refine ⟨_, Operand.sort_eq descending hcomparable, hsorting.perm, hsorting.ordered, fun x => ?_,
    fun zs hzs => hzs.unique hsorting⟩
  have hstable := hsorting.stable x.toQualName.texts
  simpa only [hequal] using hstable

/-- In descending order, too, the segment `a` stays in front of the simple name made of it, which
came later, and the name `b` gets in front of both. -/
theorem sort_isSorting_segment_first :
    let a : Segment := ⟨['a'], rfl⟩
    let b : Segment := ⟨['b'], rfl⟩
    let xs : List (Designator × Nat) :=
      [(.segment a, 0), (.name (.ofSegment b), 1), (.name (.ofSegment a), 2)]
    xs.countP (fun e => e.1.isSegment) ≤ 1 ∧
      ∃ ys : List (Designator × Nat),
        Operand.sort true (xs.map fun e => .designator e.1) =
          .ok (ys.map fun e => .designator e.1) ∧
        ys.Perm xs ∧
        ys.filter (fun e => e.1.same (.segment a)) =
          [(.segment a, 0), (.name (.ofSegment a), 2)] := by
  intro a b xs
  have hone : xs.countP (fun e => e.1.isSegment) ≤ 1 := by decide
  obtain ⟨ys, hsort, hperm, -, hstable, -⟩ := sort_isSorting true Prod.fst xs hone
  exact ⟨hone, ys, hsort, hperm, (hstable (.segment a)).trans (by decide)⟩

end DottedNames.Designator
