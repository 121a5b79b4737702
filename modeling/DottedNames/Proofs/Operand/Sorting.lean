import DottedNames.Operand.Sorting
import Mathlib.Data.List.Induction
import Mathlib.Data.List.InsertIdx
import Mathlib.Data.List.Pairwise
import Mathlib.Data.List.TakeWhile
import Mathlib.Order.Lattice

/-!
# Sorting by a key

Sorting asks for nothing but whether one item comes before another one. Where these answers are
those of a key with a linear order, sorting cannot fail, and its result is the one that is had by
inserting each item behind all items whose key is not greater (`sort_eq`). How the items are
compared and where the search halves the list is then of no account: two lists whose comparisons
answer alike are sorted alike (`sortedBy_congr`), and the result is a permutation in the order of
the keys.

The operands that are sorted may stand for something else, such as the names behind them, so all
statements are about elements that are given as operands.
-/

namespace DottedNames.Operand

variable {α κ : Type} [LinearOrder κ] {key : α → κ} {operand : α → Operand} {x y : α}
  {xs ys run rest before after : List α} {low high : Nat}

/-! ## Insertion by a key -/

/-- The list `ys` with `x` behind the elements at its front whose keys are not greater. -/
def insertBehind (key : α → κ) (ys : List α) (x : α) : List α :=
  ys.takeWhile (key · ≤ key x) ++ x :: ys.dropWhile (key · ≤ key x)

/-- Some elements in the order of their keys; each one is inserted behind those before it. -/
def sortedBy (key : α → κ) (xs : List α) : List α := xs.foldl (insertBehind key) []

theorem sortedBy_concat : sortedBy key (xs ++ [x]) = insertBehind key (sortedBy key xs) x :=
  List.foldl_append

theorem insertIdx_length_append :
    (before ++ after).insertIdx before.length x = before ++ x :: after := by
  induction before with
  | nil => rfl
  | cons y before ih => rw [List.cons_append, List.length_cons, List.insertIdx_succ_cons, ih]; rfl

theorem insertBehind_append (hbefore : ∀ y ∈ before, key y ≤ key x)
    (hafter : ∀ y ∈ after, key x < key y) :
    insertBehind key (before ++ after) x = before ++ x :: after := by
  have hfront : ∀ y ∈ before, decide (key y ≤ key x) = true := by simpa using hbefore
  have hstop : after.takeWhile (key · ≤ key x) = [] ∧ after.dropWhile (key · ≤ key x) = after := by
    cases after with
    | nil => exact ⟨rfl, rfl⟩
    | cons y after =>
      have hy : ¬ key y ≤ key x := not_le.2 (hafter y List.mem_cons_self)
      simp [hy]
  rw [insertBehind, List.takeWhile_append_of_pos hfront, List.dropWhile_append_of_pos hfront,
    hstop.1, hstop.2, List.append_nil]

theorem perm_insertBehind : (insertBehind key ys x).Perm (x :: ys) := by
  have h : (ys.takeWhile (key · ≤ key x) ++ x :: ys.dropWhile (key · ≤ key x)).Perm _ :=
    List.perm_middle
  rwa [List.takeWhile_append_dropWhile] at h

/-- Behind the elements of a sorted list that are passed over, all keys are greater. -/
theorem lt_of_mem_dropWhile (hys : ys.Pairwise (key · ≤ key ·))
    (hy : y ∈ ys.dropWhile (key · ≤ key x)) : key x < key y := by
  cases hrest : ys.dropWhile (key · ≤ key x) with
  | nil => simp [hrest] at hy
  | cons z zs =>
    have hz : key x < key z := by
      have h := List.head?_dropWhile_not (fun y => decide (key y ≤ key x)) ys
      simpa [hrest] using h
    have hsorted : (z :: zs).Pairwise (key · ≤ key ·) :=
      hrest ▸ hys.sublist (List.dropWhile_sublist _)
    rw [hrest] at hy
    rcases List.mem_cons.1 hy with rfl | hy
    · exact hz
    · exact hz.trans_le (List.rel_of_pairwise_cons hsorted hy)

theorem pairwise_insertBehind (hys : ys.Pairwise (key · ≤ key ·)) :
    (insertBehind key ys x).Pairwise (key · ≤ key ·) := by
  have hfront : ∀ y ∈ ys.takeWhile (key · ≤ key x), key y ≤ key x := by
    intro y hy
    simpa using List.mem_takeWhile_imp hy
  have hback : ∀ y ∈ ys.dropWhile (key · ≤ key x), key x ≤ key y := by
    intro y hy
    exact (lt_of_mem_dropWhile hys hy).le
  refine List.pairwise_append.2 ⟨hys.sublist (List.takeWhile_sublist _),
    List.pairwise_cons.2 ⟨hback, hys.sublist (List.dropWhile_sublist _)⟩, ?_⟩
  intro y hy z hz
  rcases List.mem_cons.1 hz with rfl | hz
  · exact hfront y hy
  · exact (hfront y hy).trans (hback z hz)

theorem perm_sortedBy : (sortedBy key xs).Perm xs := by
  induction xs using List.reverseRecOn with
  | nil => exact List.Perm.refl _
  | append_singleton xs x ih =>
    rw [sortedBy_concat]
    exact perm_insertBehind.trans ((ih.cons x).trans (List.perm_append_singleton x xs).symm)

theorem pairwise_sortedBy : (sortedBy key xs).Pairwise (key · ≤ key ·) := by
  induction xs using List.reverseRecOn with
  | nil => exact List.Pairwise.nil
  | append_singleton xs x ih =>
    rw [sortedBy_concat]
    exact pairwise_insertBehind ih

/-- Only the comparisons of the keys count. -/
theorem sortedBy_congr {μ : Type} [LinearOrder μ] {key' : α → μ}
    (h : ∀ a b, key a ≤ key b ↔ key' a ≤ key' b) : sortedBy key xs = sortedBy key' xs := by
  have hinsert : insertBehind key = insertBehind key' := by
    funext ys x
    simp only [insertBehind, h]
  rw [sortedBy, hinsert, sortedBy]

/-- A list that does not descend is left as it is. -/
theorem sortedBy_of_pairwise_le (hxs : xs.Pairwise (key · ≤ key ·)) : sortedBy key xs = xs := by
  induction xs using List.reverseRecOn with
  | nil => rfl
  | append_singleton xs x ih =>
    obtain ⟨hinit, -, hlast⟩ := List.pairwise_append.1 hxs
    have hbefore : ∀ y ∈ xs, key y ≤ key x := fun y hy => hlast y hy x (List.mem_singleton_self x)
    have hinsert : insertBehind key (xs ++ []) x = xs ++ [x] :=
      insertBehind_append hbefore fun _ => nofun
    rw [sortedBy_concat, ih hinit, ← hinsert, List.append_nil]

/-- A list that descends strictly is reversed. -/
theorem sortedBy_of_pairwise_gt (hxs : xs.Pairwise (fun a b => key b < key a)) :
    sortedBy key xs = xs.reverse := by
  induction xs using List.reverseRecOn with
  | nil => rfl
  | append_singleton xs x ih =>
    obtain ⟨hinit, -, hlast⟩ := List.pairwise_append.1 hxs
    have hafter : ∀ y ∈ xs.reverse, key x < key y := by
      intro y hy
      exact hlast y (List.mem_reverse.1 hy) x (List.mem_singleton_self x)
    have hinsert : insertBehind key ([] ++ xs.reverse) x = [] ++ x :: xs.reverse :=
      insertBehind_append (fun _ => nofun) hafter
    rw [sortedBy_concat, ih hinit, List.reverse_concat]
    exact hinsert

/-! ## Comparison by a key -/

/-- The operands of two elements are ordered as the keys are, whichever of the two is asked. -/
def OrderedBy (operand : α → Operand) (key : α → κ) (a b : α) : Prop :=
  related .lt (operand a) (operand b) = .ok (decide (key a < key b)) ∧
    related .lt (operand b) (operand a) = .ok (decide (key b < key a))

theorem OrderedBy.symm (h : OrderedBy operand key x y) : OrderedBy operand key y x := And.symm h

/-- Halving finds the place where the keys begin to be greater, wherever the search starts. -/
theorem insertionPoint_eq (hx : ∀ y ∈ before ++ after, OrderedBy operand key x y)
    (hbefore : ∀ y ∈ before, key y ≤ key x) (hafter : ∀ y ∈ after, key x < key y)
    (hlow : low ≤ before.length) (hhigh : before.length ≤ high)
    (hlength : high ≤ (before ++ after).length) :
    insertionPoint (operand x) ((before ++ after).map operand) low high = .ok before.length := by
  -- Induction on the width of the interval, which has the place in it at every step.
  induction hwidth : high - low using Nat.strong_induction_on generalizing low high with
  | _ width ih =>
    rw [insertionPoint]
    split
    · next hlt =>
      have hmiddle : (low + high) / 2 < (before ++ after).length := by omega
      have hget : ((before ++ after).map operand)[(low + high) / 2]? =
          some (operand (before ++ after)[(low + high) / 2]) := by
        rw [List.getElem?_map, List.getElem?_eq_getElem hmiddle, Option.map_some]
      have hasked := (hx _ (List.getElem_mem hmiddle)).1
      simp only [hget, hasked]
      by_cases hfront : (low + high) / 2 < before.length
      · have hle : key (before ++ after)[(low + high) / 2] ≤ key x := by
          rw [List.getElem_append_left hfront]
          exact hbefore _ (List.getElem_mem hfront)
        rw [decide_eq_false (not_lt.2 hle)]
        exact ih (high - ((low + high) / 2 + 1)) (by omega) hfront hhigh hlength rfl
      · rw [not_lt] at hfront
        have hgt : key x < key (before ++ after)[(low + high) / 2] := by
          rw [List.getElem_append_right hfront]
          exact hafter _ (List.getElem_mem _)
        rw [decide_eq_true hgt]
        exact ih ((low + high) / 2 - low) (by omega) hlow hfront (by omega) rfl
    · next hge =>
      have hplace : low = before.length := by omega
      rw [hplace]

/-- Inserting into sorted items is inserting by the key. -/
theorem insertSorted_eq (hys : ys.Pairwise (key · ≤ key ·))
    (hx : ∀ y ∈ ys, OrderedBy operand key x y) :
    insertSorted (operand x) (ys.map operand) = .ok ((insertBehind key ys x).map operand) := by
  have hcut : ys.takeWhile (key · ≤ key x) ++ ys.dropWhile (key · ≤ key x) = ys :=
    List.takeWhile_append_dropWhile
  have hbefore : ∀ y ∈ ys.takeWhile (key · ≤ key x), key y ≤ key x := by
    intro y hy
    simpa using List.mem_takeWhile_imp hy
  have hafter : ∀ y ∈ ys.dropWhile (key · ≤ key x), key x < key y :=
    fun y => lt_of_mem_dropWhile hys
  unfold insertBehind
  generalize ys.takeWhile (key · ≤ key x) = before at *
  generalize ys.dropWhile (key · ≤ key x) = after at *
  subst hcut
  have hplace : insertionPoint (operand x) ((before ++ after).map operand) 0
      ((before ++ after).map operand).length = .ok before.length := by
    rw [List.length_map]
    refine insertionPoint_eq hx hbefore hafter (Nat.zero_le _) ?_ le_rfl
    rw [List.length_append]
    exact Nat.le_add_right _ _
  have hinsert : ((before ++ after).map operand).insertIdx before.length (operand x) =
      (before ++ x :: after).map operand := by
    rw [← List.map_insertIdx, insertIdx_length_append]
  rw [insertSorted, hplace]
  exact congrArg Except.ok hinsert

/-! ## The run at the beginning -/

theorem pairwise_le_cons (h : key x ≤ key y) (hys : (y :: ys).Pairwise (key · ≤ key ·)) :
    (x :: y :: ys).Pairwise (key · ≤ key ·) := by
  have htrans : IsTrans α (key · ≤ key ·) := ⟨fun _ _ _ => le_trans⟩
  exact List.pairwise_cons_cons_iff_of_trans.2 ⟨h, hys⟩

theorem pairwise_gt_cons (h : key y < key x) (hys : (y :: ys).Pairwise fun a b => key b < key a) :
    (x :: y :: ys).Pairwise fun a b => key b < key a := by
  have htrans : IsTrans α fun a b => key b < key a := ⟨fun _ _ _ => gt_trans⟩
  exact List.pairwise_cons_cons_iff_of_trans.2 ⟨h, hys⟩

theorem ascendingRun_eq (hxs : (x :: xs).Pairwise (OrderedBy operand key)) :
    ∃ run rest, xs = run ++ rest ∧ (x :: run).Pairwise (key · ≤ key ·) ∧
      ascendingRun (operand x) (xs.map operand) = .ok (run.map operand, rest.map operand) := by
  induction xs generalizing x with
  | nil => exact ⟨[], [], rfl, List.pairwise_singleton _ _, rfl⟩
  | cons y ys ih =>
    obtain ⟨hx, hys⟩ := List.pairwise_cons.1 hxs
    have hasked := (hx y List.mem_cons_self).2
    by_cases hlt : key y < key x
    · rw [decide_eq_true hlt] at hasked
      refine ⟨[], y :: ys, rfl, List.pairwise_singleton _ _, ?_⟩
      rw [List.map_cons, ascendingRun, hasked]
      rfl
    · rw [decide_eq_false hlt] at hasked
      obtain ⟨run, rest, rfl, hrun, hread⟩ := ih hys
      refine ⟨y :: run, rest, rfl, pairwise_le_cons (not_lt.1 hlt) hrun, ?_⟩
      rw [List.map_cons, ascendingRun, hasked]
      show (ascendingRun (operand y) ((run ++ rest).map operand) >>= _) = _
      rw [hread]
      rfl

theorem descendingRun_eq (run : List α) (hxs : (x :: xs).Pairwise (OrderedBy operand key)) :
    ∃ down rest, xs = down ++ rest ∧ (x :: down).Pairwise (fun a b => key b < key a) ∧
      descendingRun (operand x) (run.map operand) (xs.map operand) =
        .ok ((down.reverse ++ run).map operand, rest.map operand) := by
  induction xs generalizing x run with
  | nil => exact ⟨[], [], rfl, List.pairwise_singleton _ _, rfl⟩
  | cons y ys ih =>
    obtain ⟨hx, hys⟩ := List.pairwise_cons.1 hxs
    have hasked := (hx y List.mem_cons_self).2
    by_cases hlt : key y < key x
    · rw [decide_eq_true hlt] at hasked
      obtain ⟨down, rest, rfl, hdown, hread⟩ := ih (y :: run) hys
      refine ⟨y :: down, rest, rfl, pairwise_gt_cons hlt hdown, ?_⟩
      rw [List.map_cons, descendingRun, hasked]
      refine hread.trans ?_
      simp
    · rw [decide_eq_false hlt] at hasked
      refine ⟨[], y :: ys, rfl, List.pairwise_singleton _ _, ?_⟩
      rw [List.map_cons, descendingRun, hasked]
      rfl

/-- The run at the beginning comes out sorted. -/
theorem firstRun_eq (hxs : xs.Pairwise (OrderedBy operand key)) :
    ∃ run rest, xs = run ++ rest ∧
      firstRun (xs.map operand) = .ok ((sortedBy key run).map operand, rest.map operand) := by
  match xs with
  | [] => exact ⟨[], [], rfl, rfl⟩
  | [x] => exact ⟨[x], [], rfl, rfl⟩
  | x :: y :: ys =>
    obtain ⟨hx, hys⟩ := List.pairwise_cons.1 hxs
    have hasked := (hx y List.mem_cons_self).2
    by_cases hlt : key y < key x
    · rw [decide_eq_true hlt] at hasked
      obtain ⟨down, rest, rfl, hdown, hread⟩ := descendingRun_eq [y, x] hys
      have hrun := pairwise_gt_cons hlt hdown
      refine ⟨x :: y :: down, rest, rfl, ?_⟩
      rw [List.map_cons, List.map_cons, firstRun, hasked, sortedBy_of_pairwise_gt hrun]
      refine hread.trans ?_
      simp
    · rw [decide_eq_false hlt] at hasked
      obtain ⟨run, rest, rfl, hrun, hread⟩ := ascendingRun_eq hys
      have hsorted := pairwise_le_cons (not_lt.1 hlt) hrun
      refine ⟨x :: y :: run, rest, rfl, ?_⟩
      rw [List.map_cons, List.map_cons, firstRun, hasked, sortedBy_of_pairwise_le hsorted]
      show (ascendingRun (operand y) ((run ++ rest).map operand) >>= _) = _
      rw [hread]
      rfl

/-! ## Sorting -/

/-- Inserting the other items one by one, by induction on them. -/
theorem foldlM_insertSorted_eq (h : (run ++ rest).Pairwise (OrderedBy operand key)) :
    (rest.map operand).foldlM (fun sorted x => insertSorted x sorted)
      ((sortedBy key run).map operand) = .ok ((sortedBy key (run ++ rest)).map operand) := by
  induction rest generalizing run with
  | nil => rw [List.append_nil]; rfl
  | cons x rest ih =>
    have hx : ∀ y ∈ sortedBy key run, OrderedBy operand key x y := by
      intro y hy
      have hbefore := (List.pairwise_append.1 h).2.2
      exact (hbefore y (perm_sortedBy.mem_iff.1 hy) x List.mem_cons_self).symm
    rw [List.append_cons] at h ⊢
    rw [List.map_cons, List.foldlM_cons, insertSorted_eq pairwise_sortedBy hx, ← sortedBy_concat]
    exact ih h

theorem sortAscending_eq (hxs : xs.Pairwise (OrderedBy operand key)) :
    sortAscending (xs.map operand) = .ok ((sortedBy key xs).map operand) := by
  obtain ⟨run, rest, rfl, hrun⟩ := firstRun_eq hxs
  rw [sortAscending, hrun]
  exact foldlM_insertSorted_eq hxs

/-- Some elements in ascending or descending order of their keys, those with the same key in the
order they came in. -/
def sortedIn (descending : Bool) (key : α → κ) (xs : List α) : List α :=
  if descending then (sortedBy key xs.reverse).reverse else sortedBy key xs

/-- Sorting operands that are ordered by a key gives them in the order of their keys. -/
theorem sort_eq (descending : Bool) (hxs : xs.Pairwise (OrderedBy operand key)) :
    sort descending (xs.map operand) = .ok ((sortedIn descending key xs).map operand) := by
  cases descending with
  | false => exact sortAscending_eq hxs
  | true =>
    have hreverse : xs.reverse.Pairwise (OrderedBy operand key) :=
      List.pairwise_reverse.2 (hxs.imp OrderedBy.symm)
    rw [sort, if_pos rfl, ← List.map_reverse, sortAscending_eq hreverse]
    exact congrArg Except.ok List.map_reverse.symm

theorem perm_sortedIn (descending : Bool) : (sortedIn descending key xs).Perm xs := by
  cases descending with
  | false => exact perm_sortedBy
  | true => exact (List.reverse_perm _).trans (perm_sortedBy.trans (List.reverse_perm xs))

theorem pairwise_sortedIn (descending : Bool) : (sortedIn descending key xs).Pairwise fun a b =>
    if descending then key b ≤ key a else key a ≤ key b := by
  cases descending with
  | false => exact pairwise_sortedBy
  | true => exact List.pairwise_reverse.2 pairwise_sortedBy

theorem sortedIn_congr {μ : Type} [LinearOrder μ] {key' : α → μ} (descending : Bool)
    (h : ∀ a b, key a ≤ key b ↔ key' a ≤ key' b) :
    sortedIn descending key xs = sortedIn descending key' xs := by
  rw [sortedIn, sortedBy_congr h, sortedBy_congr h, sortedIn]

/-! ## Stability -/

theorem filter_insertBehind (hys : ys.Pairwise (key · ≤ key ·)) (k : κ) :
    (insertBehind key ys x).filter (key · = k) = (ys ++ [x]).filter (key · = k) := by
  have hcut : ys = ys.takeWhile (key · ≤ key x) ++ ys.dropWhile (key · ≤ key x) :=
    List.takeWhile_append_dropWhile.symm
  have hfilter : ys.filter (key · = k) = (ys.takeWhile (key · ≤ key x)).filter (key · = k) ++
      (ys.dropWhile (key · ≤ key x)).filter (key · = k) := by
    rw [← List.filter_append, ← hcut]
  rw [insertBehind, List.filter_append, List.filter_append, hfilter, List.append_assoc]
  by_cases hk : key x = k
  · subst hk
    have hback : (ys.dropWhile (key · ≤ key x)).filter (key · = key x) = [] := by
      refine List.filter_eq_nil_iff.2 fun y hy => ?_
      simpa using (lt_of_mem_dropWhile hys hy).ne'
    simp [hback]
  · simp [hk]

theorem filter_sortedBy (k : κ) :
    (sortedBy key xs).filter (key · = k) = xs.filter (key · = k) := by
  induction xs using List.reverseRecOn with
  | nil => rfl
  | append_singleton xs x ih =>
    rw [sortedBy_concat, filter_insertBehind pairwise_sortedBy, List.filter_append, ih,
      List.filter_append]

/-- The list `ys` has the elements of `xs` in ascending or descending order of their keys, those
with the same key in the order they came in. -/
structure IsSorting (descending : Bool) (key : α → κ) (xs ys : List α) : Prop where
  /-- No element is added or lost. -/
  perm : ys.Perm xs
  /-- The keys do not descend, or do not ascend. -/
  ordered : ys.Pairwise fun a b => if descending then key b ≤ key a else key a ≤ key b
  /-- The elements with the same key stay in order. -/
  stable : ∀ k, ys.filter (key · = k) = xs.filter (key · = k)

theorem isSorting_sortedIn (descending : Bool) :
    IsSorting descending key xs (sortedIn descending key xs) where
  perm := perm_sortedIn descending
  ordered := pairwise_sortedIn descending
  stable k := by
    cases descending with
    | false => exact filter_sortedBy k
    | true =>
      show (sortedBy key xs.reverse).reverse.filter (key · = k) = _
      rw [List.filter_reverse, filter_sortedBy, List.filter_reverse, List.reverse_reverse]

theorem mem_iff_of_filter_eq {zs : List α}
    (h : ∀ k, ys.filter (key · = k) = zs.filter (key · = k)) (a : α) : a ∈ ys ↔ a ∈ zs := by
  have ha : a ∈ ys.filter (key · = key a) ↔ a ∈ zs.filter (key · = key a) := by rw [h]
  simpa using ha

/-- A list in the order of the keys is told by the elements with each of the keys. -/
theorem eq_of_pairwise_le {zs : List α} (hys : ys.Pairwise (key · ≤ key ·))
    (hzs : zs.Pairwise (key · ≤ key ·))
    (h : ∀ k, ys.filter (key · = k) = zs.filter (key · = k)) : ys = zs := by
  induction ys generalizing zs with
  | nil =>
    refine (List.eq_nil_iff_forall_not_mem.2 fun a ha => ?_).symm
    exact List.not_mem_nil ((mem_iff_of_filter_eq h a).2 ha)
  | cons y ys ih =>
    cases zs with
    | nil => exact absurd ((mem_iff_of_filter_eq h y).1 List.mem_cons_self) List.not_mem_nil
    | cons z zs =>
      obtain ⟨hy, hys'⟩ := List.pairwise_cons.1 hys
      obtain ⟨hz, hzs'⟩ := List.pairwise_cons.1 hzs
      -- Both heads have the least key, so both are the first element with that key.
      have hleast : ∀ a ∈ y :: ys, key y ≤ key a := List.forall_mem_cons.2 ⟨le_rfl, hy⟩
      have hleast' : ∀ a ∈ z :: zs, key z ≤ key a := List.forall_mem_cons.2 ⟨le_rfl, hz⟩
      have hyz : key y ≤ key z := hleast z ((mem_iff_of_filter_eq h z).2 List.mem_cons_self)
      have hzy : key z ≤ key y := hleast' y ((mem_iff_of_filter_eq h y).1 List.mem_cons_self)
      have hkey : key z = key y := le_antisymm hzy hyz
      have hhead := h (key y)
      rw [List.filter_cons_of_pos (by simp), List.filter_cons_of_pos (by simpa using hkey)] at hhead
      obtain ⟨rfl, -⟩ := List.cons.inj hhead
      refine congrArg (y :: ·) (ih hys' hzs' fun k => ?_)
      have hk := h k
      rw [List.filter_cons, List.filter_cons] at hk
      split at hk
      · exact (List.cons.inj hk).2
      · exact hk

/-- There is only one such list. -/
theorem IsSorting.unique {zs : List α} {descending : Bool} (hys : IsSorting descending key xs ys)
    (hzs : IsSorting descending key xs zs) : ys = zs := by
  have hfilter : ∀ k, ys.filter (key · = k) = zs.filter (key · = k) := fun k =>
    (hys.stable k).trans (hzs.stable k).symm
  cases descending with
  | false => exact eq_of_pairwise_le hys.ordered hzs.ordered hfilter
  | true =>
    have hreverse : ∀ k, ys.reverse.filter (key · = k) = zs.reverse.filter (key · = k) := by
      intro k
      rw [List.filter_reverse, List.filter_reverse, hfilter]
    exact List.reverse_inj.1 (eq_of_pairwise_le (List.pairwise_reverse.2 hys.ordered)
      (List.pairwise_reverse.2 hzs.ordered) hreverse)

end DottedNames.Operand
