import DottedNames.Operand.Distinct
import DottedNames.Proofs.Designator.Equality
import Mathlib.Data.List.Dedup
import Mathlib.Data.List.Induction

/-!
# First occurrences of a key

The distinct items of a list are found one after the other, by comparing each item with those kept
so far. Where two items are equal exactly when they have the same key, this leaves the items whose
key no earlier item of the list has (`foldl_keepBy`), whether the earlier items were kept or not:
the keys of the kept items are those of all items that were looked at. So each key is there once
(`nodup_map_firstsBy`), and looking through what is left changes nothing (`firstsBy_firstsBy`).

A table of hashes finds the same items, whatever the hashes are, as long as equal items have equal
ones. For segments and names the written form is such a key.
-/

namespace DottedNames

variable {α β κ : Type} [DecidableEq κ] {key : α → κ} {eq : α → α → Bool} {x : α} {xs ys : List α}

/-! ## Keys that occur for the first time -/

/-- The elements whose key no earlier element has. -/
def firstsBy (key : α → κ) (xs : List α) : List α :=
  (xs.zipIdx.filter fun (p : α × Nat) => key p.1 ∉ (xs.take p.2).map key).map Prod.fst

/-- Of the elements behind `xs`, those stay whose key is none of the keys of `xs` either. -/
theorem firstsBy_append :
    firstsBy key (xs ++ ys) =
      firstsBy key xs ++ (firstsBy key ys).filter fun y => key y ∉ xs.map key := by
  have hfront : (xs.zipIdx.filter fun (p : α × Nat) => key p.1 ∉ ((xs ++ ys).take p.2).map key) =
      xs.zipIdx.filter fun (p : α × Nat) => key p.1 ∉ (xs.take p.2).map key := by
    refine List.filter_congr fun p hp => ?_
    have hlt : p.2 < xs.length := by
      have h := List.mem_zipIdx hp
      omega
    rw [List.take_append_of_le_length hlt.le]
  -- Behind `xs`, what comes before a place is `xs` and what comes before the place in `ys`.
  have hback : ((ys.zipIdx (0 + xs.length)).filter fun (p : α × Nat) =>
      key p.1 ∉ ((xs ++ ys).take p.2).map key).map Prod.fst =
      (firstsBy key ys).filter fun y => key y ∉ xs.map key := by
    rw [firstsBy, List.zipIdx_eq_map_add, List.filter_map, List.filter_map, List.filter_filter,
      List.map_map]
    congr 1
    refine List.filter_congr fun p _ => ?_
    simp only [Function.comp_apply, Nat.zero_add, List.take_length_add_append, List.map_append,
      List.mem_append, not_or, Bool.decide_and]
  rw [firstsBy, List.zipIdx_append, List.filter_append, List.map_append, hfront, hback]
  rfl

theorem sublist_firstsBy : (firstsBy key xs).Sublist xs := by
  have hsublist : (firstsBy key xs).Sublist (xs.zipIdx.map Prod.fst) :=
    List.filter_sublist.map Prod.fst
  rwa [List.zipIdx_map_fst] at hsublist

theorem firstsBy_singleton : firstsBy key [x] = [x] := rfl

theorem firstsBy_cons :
    firstsBy key (x :: xs) = x :: (firstsBy key xs).filter fun y => key y ≠ key x := by
  have h : firstsBy key ([x] ++ xs) = _ := firstsBy_append
  simpa [firstsBy_singleton] using h

theorem firstsBy_concat :
    firstsBy key (xs ++ [x]) =
      if key x ∈ xs.map key then firstsBy key xs else firstsBy key xs ++ [x] := by
  rw [firstsBy_append, firstsBy_singleton]
  by_cases hx : key x ∈ xs.map key
  · rw [if_pos hx, List.filter_singleton, decide_eq_false (not_not.2 hx)]
    exact List.append_nil _
  · rw [if_neg hx, List.filter_singleton, decide_eq_true hx]
    rfl

/-- No key is lost. -/
theorem mem_map_firstsBy {k : κ} : k ∈ (firstsBy key xs).map key ↔ k ∈ xs.map key := by
  induction xs using List.reverseRecOn with
  | nil => exact Iff.rfl
  | append_singleton xs x ih =>
    rw [firstsBy_concat]
    by_cases hx : key x ∈ xs.map key
    · rw [if_pos hx, ih, List.map_append, List.mem_append, List.map_singleton, List.mem_singleton]
      constructor
      · exact .inl
      · rintro (hk | rfl)
        · exact hk
        · exact hx
    · rw [if_neg hx, List.map_append, List.map_append, List.mem_append, List.mem_append, ih]

theorem nodup_map_firstsBy : ((firstsBy key xs).map key).Nodup := by
  induction xs using List.reverseRecOn with
  | nil => exact List.nodup_nil
  | append_singleton xs x ih =>
    rw [firstsBy_concat]
    by_cases hx : key x ∈ xs.map key
    · rwa [if_pos hx]
    · have hnew : key x ∉ (firstsBy key xs).map key := by rwa [mem_map_firstsBy]
      rw [if_neg hx, List.map_append, List.map_singleton, ← List.concat_eq_append]
      exact ih.concat hnew

/-- Where no key occurs twice, every element is the first one with its key. -/
theorem firstsBy_of_nodup (h : (xs.map key).Nodup) : firstsBy key xs = xs := by
  induction xs using List.reverseRecOn with
  | nil => rfl
  | append_singleton xs x ih =>
    rw [List.map_append, List.map_singleton, List.nodup_append_comm, List.singleton_append,
      List.nodup_cons] at h
    rw [firstsBy_concat, if_neg h.1, ih h.2]

theorem firstsBy_firstsBy : firstsBy key (firstsBy key xs) = firstsBy key xs :=
  firstsBy_of_nodup nodup_map_firstsBy

/-- There are as many elements as keys. -/
theorem length_firstsBy : (firstsBy key xs).length = (xs.map key).dedup.length := by
  have hperm : ((firstsBy key xs).map key).Perm (xs.map key).dedup := by
    refine (List.perm_ext_iff_of_nodup nodup_map_firstsBy (List.nodup_dedup _)).2 fun k => ?_
    rw [mem_map_firstsBy, List.mem_dedup]
  rw [← hperm.length_eq, List.length_map]

theorem mem_firstsBy_iff :
    x ∈ firstsBy key xs ↔
      ∃ before after, xs = before ++ x :: after ∧ ∀ y ∈ before, key y ≠ key x := by
  induction xs with
  | nil => exact iff_of_false List.not_mem_nil (by simp)
  | cons y ys ih =>
    rw [firstsBy_cons, List.mem_cons, List.mem_filter, ih]
    constructor
    · rintro (rfl | ⟨⟨before, after, rfl, hbefore⟩, hne⟩)
      · exact ⟨[], ys, rfl, fun _ => nofun⟩
      · refine ⟨y :: before, after, rfl, List.forall_mem_cons.2 ⟨?_, hbefore⟩⟩
        exact (of_decide_eq_true hne).symm
    · rintro ⟨before, after, heq, hbefore⟩
      cases before with
      | nil => exact .inl (List.cons.inj heq).1.symm
      | cons z before =>
        obtain ⟨rfl, rfl⟩ := List.cons.inj heq
        obtain ⟨hne, hbefore⟩ := List.forall_mem_cons.1 hbefore
        exact .inr ⟨⟨before, after, rfl, hbefore⟩, decide_eq_true hne.symm⟩

theorem firstsBy_map {ys : List β} {f : β → α} :
    firstsBy key (ys.map f) = (firstsBy (key ∘ f) ys).map f := by
  induction ys using List.reverseRecOn with
  | nil => rfl
  | append_singleton ys y ih =>
    rw [List.map_append, List.map_singleton, firstsBy_concat, firstsBy_concat, List.map_map, ih,
      apply_ite (List.map f), List.map_append]
    rfl

/-! ## Keeping items one after the other -/

/-- The kept items with `x` at the end, unless an equal one is kept already. -/
def keepBy (eq : α → α → Bool) (kept : List α) (x : α) : List α :=
  if kept.any (eq · x) then kept else kept ++ [x]

theorem keepBy_map (f : β → α) (kept : List β) (y : β) :
    keepBy eq (kept.map f) (f y) = (keepBy (fun a b => eq (f a) (f b)) kept y).map f := by
  rw [keepBy, keepBy, List.any_map, apply_ite (List.map f), List.map_append]
  rfl

/-- What is kept is compared with, and its keys are those of all that came before. -/
theorem keepBy_firstsBy (h : ∀ a b, eq a b = true ↔ key a = key b) (xs : List α) (x : α) :
    keepBy eq (firstsBy key xs) x = firstsBy key (xs ++ [x]) := by
  have hkept : (firstsBy key xs).any (eq · x) = true ↔ key x ∈ xs.map key := by
    rw [List.any_eq_true, ← mem_map_firstsBy, List.mem_map]
    simp only [h]
  simp only [keepBy, hkept, firstsBy_concat]

theorem foldl_keepBy (h : ∀ a b, eq a b = true ↔ key a = key b) (xs : List α) :
    xs.foldl (keepBy eq) [] = firstsBy key xs := by
  induction xs using List.reverseRecOn with
  | nil => rfl
  | append_singleton xs x ih =>
    rw [List.foldl_append, ih]
    exact keepBy_firstsBy h xs x

namespace Operand

theorem distinct_map {operand : α → Operand} (hhash : ∀ a, ∃ k, (operand a).hashKey = .ok k)
    (hsame : ∀ a b, (operand a).same (operand b) = true ↔ key a = key b) (xs : List α) :
    distinct (xs.map operand) = .ok ((firstsBy key xs).map operand) := by
  induction xs using List.reverseRecOn with
  | nil => rfl
  | append_singleton xs x ih =>
    have hstep : keepHashed ((firstsBy key xs).map operand) (operand x) =
        .ok ((firstsBy key (xs ++ [x])).map operand) := by
      obtain ⟨k, hk⟩ := hhash x
      rw [← keepBy_firstsBy hsame, ← keepBy_map, keepHashed, hk]
      rfl
    have hfirst : (xs.map operand).foldlM keepHashed [] = .ok ((firstsBy key xs).map operand) := ih
    rw [distinct, List.map_append, List.foldlM_append, hfirst]
    show (keepHashed _ (operand x) >>= fun kept => List.foldlM keepHashed kept []) = _
    rw [hstep]
    rfl

theorem distinct_designators (xs : List Designator) :
    distinct (xs.map .designator) = .ok ((firstsBy Designator.text xs).map .designator) := by
  have hsame : ∀ x y : Designator,
      (designator x).same (designator y) = true ↔ x.text = y.text := by
    intro x y
    exact Designator.same_iff_text_eq
  exact distinct_map (fun _ => ⟨_, rfl⟩) hsame xs

/-- Where no item is refused, looking at each one before the next changes nothing. -/
theorem distinctOf_map_ok (items : List Operand) : distinctOf (items.map .ok) = distinct items :=
  List.foldlM_map

end Operand

namespace Designator

/-- A table of the designators so far, in the order in which they came, and one more. Those in the
table are asked whether they have the same hash, and if so whether they are equal. -/
def tabulate {η : Type} [DecidableEq η] (ofText : Text → η) (ofTexts : List Text → η) :
    List Designator → Designator → List Designator :=
  keepBy fun y x => y.hashWith ofText ofTexts == x.hashWith ofText ofTexts && y.same x

/-- Whatever the hashes are, no two equal designators get into the table. -/
theorem foldl_tabulate {η : Type} [DecidableEq η] (ofText : Text → η) (ofTexts : List Text → η)
    (xs : List Designator) : xs.foldl (tabulate ofText ofTexts) [] = firstsBy text xs := by
  refine foldl_keepBy (fun y x => ?_) xs
  rw [Bool.and_eq_true, beq_iff_eq, same_iff_text_eq, and_iff_right_iff_imp]
  intro h
  exact hashWith_eq_of_same (same_iff_text_eq.2 h) ofText ofTexts

/-- The distinct items of a list of segments and names are found without a fault, and a table of any
hashes finds the same ones. They stand in the list in this order, no two of them are equal, and
every item is equal to exactly one of them. They are the items that no earlier item of the list is
equal to; so of a segment and the simple name made of it the one stays that came first, as it is.
There are as many of them as written forms among the items, and all of them are kept when they are
looked through again. -/
theorem distinct_firsts (xs : List Designator) :
    ∃ kept : List Designator,
      Operand.distinct (xs.map .designator) = .ok (kept.map .designator) ∧
      Operand.distinctOf ((xs.map .designator).map .ok) = .ok (kept.map .designator) ∧
      (∀ (η : Type) [DecidableEq η] (ofText : Text → η) (ofTexts : List Text → η),
        xs.foldl (tabulate ofText ofTexts) [] = kept) ∧
      kept.Sublist xs ∧
      (kept.Pairwise fun x y => x.same y = false) ∧
      (∀ x ∈ xs, ∃! k, k ∈ kept ∧ x.same k = true) ∧
      (∀ k, k ∈ kept ↔
        ∃ before after, xs = before ++ k :: after ∧ ∀ x ∈ before, x.same k = false) ∧
      kept.length = (xs.map text).dedup.length ∧
      Operand.distinct (kept.map .designator) = .ok (kept.map .designator) := by
  have hdiffer : ∀ x y : Designator, x.same y = false ↔ x.text ≠ y.text := by
    intro x y
    rw [← Bool.not_eq_true, same_iff_text_eq]
  have hdistinct := Operand.distinct_designators xs
  refine ⟨firstsBy text xs, hdistinct, ?_, ?_, sublist_firstsBy, ?_, fun x hx => ?_, fun k => ?_,
    length_firstsBy, ?_⟩
  · rw [Operand.distinctOf_map_ok, hdistinct]
  · intro η _ ofText ofTexts
    exact foldl_tabulate ofText ofTexts xs
  · have hnodup : ((firstsBy text xs).map text).Nodup := nodup_map_firstsBy
    simp only [hdiffer]
    exact List.pairwise_map.1 hnodup
  · have hkept : x.text ∈ (firstsBy text xs).map text :=
      mem_map_firstsBy.2 (List.mem_map_of_mem hx)
    obtain ⟨k, hk, htext⟩ := List.mem_map.1 hkept
    refine ⟨k, ⟨hk, same_iff_text_eq.2 htext.symm⟩, ?_⟩
    rintro l ⟨hl, hsame⟩
    have hlk : l.text = k.text := (same_iff_text_eq.1 hsame).symm.trans htext.symm
    exact List.inj_on_of_nodup_map nodup_map_firstsBy hl hk hlk
  · simp only [mem_firstsBy_iff, hdiffer]
  · rw [Operand.distinct_designators, firstsBy_firstsBy]

/-- The segment `a` came before the simple name made of it and stays; the simple name made of `b`
came before the segment `b` and stays. -/
theorem distinct_firsts_segment_and_name :
    let a : Segment := ⟨['a'], rfl⟩
    let b : Segment := ⟨['b'], rfl⟩
    let xs := [segment a, name (.ofSegment b), name (.ofSegment a), segment b]
    ∃ kept : List Designator,
      Operand.distinct (xs.map .designator) = .ok (kept.map .designator) ∧
      kept.length = 2 ∧ segment a ∈ kept ∧ name (.ofSegment b) ∈ kept ∧
      (∃! k, k ∈ kept ∧ (segment b).same k = true) := by
  intro a b xs
  obtain ⟨kept, hkept, -, -, -, -, hunique, hfirst, hlength, -⟩ := distinct_firsts xs
  refine ⟨kept, hkept, hlength.trans (by decide), (hfirst _).2 ⟨[], _, rfl, by decide⟩,
    (hfirst _).2 ⟨[segment a], _, rfl, by decide⟩, hunique _ (by decide)⟩

end Designator

end DottedNames
