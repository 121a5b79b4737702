import DottedNames.Script.Store
import Mathlib.Data.List.Nodup

/-!
# Names that share nothing

The names of a store are separated when no two of them refer to one list. Making a name keeps them
so, because it makes a list as well, and so does pushing, which changes no reference. In a separated
store a push is seen through the handle it goes through and through no other one.
-/

namespace DottedNames

/-- The name with more segments at its inner end. -/
def QualName.extend (q : QualName) (ss : List Segment) : QualName :=
  ⟨q.segments ++ ss, by simp [q.segments_ne_nil]⟩

namespace QualName

variable {q : QualName} {s : Segment} {ss ts : List Segment}

@[simp] theorem extend_nil : q.extend [] = q := by
  cases q
  simp [extend]

theorem extend_singleton : q.extend [s] = q.push s := rfl

theorem extend_extend : (q.extend ss).extend ts = q.extend (ss ++ ts) := by
  simp [extend]

theorem extend_cons : q.extend (s :: ss) = (q.push s).extend ss := by
  simp [extend, push]

end QualName

namespace Store

variable {st : Store} {h k : Handle} {q p : QualName} {s : Segment} {ss : List Segment}

theorem segments?_eq_some_iff :
    st.segments? h = some ss ↔ ∃ i, st.names[h.index]? = some i ∧ st.lists[i]? = some ss := by
  simp [segments?, Option.bind_eq_some_iff]

/-- A handle is that of a name when the list that the name refers to has its segments. -/
theorem get?_eq_some_iff : st.get? h = some q ↔ st.segments? h = some q.segments := by
  simp [get?, Option.bind_eq_some_iff, QualName.ofSegments?_eq_some_iff]

/-! ## Separated names -/

/-- Every name refers to a list, and no two names refer to one. -/
structure Separated (st : Store) : Prop where
  names_lt : ∀ i ∈ st.names, i < st.lists.length
  nodup_names : st.names.Nodup

theorem separated_empty : empty.Separated := ⟨by simp [empty], by simp [empty]⟩

theorem Separated.alloc (hst : st.Separated) (q : QualName) : (st.alloc q).1.Separated := by
  refine ⟨fun i hi => ?_, ?_⟩
  · have hlength : (st.alloc q).1.lists.length = st.lists.length + 1 := by
      simp [Store.alloc, newList, nameList]
    rcases List.mem_append.1 hi with hi | hi
    · have hlt : i < st.lists.length := hst.names_lt i hi
      omega
    · have hlast : i = st.lists.length := List.mem_singleton.1 hi
      omega
  · -- The new name refers to a list that is behind all the others.
    have hnew : st.lists.length ∉ st.names := fun hmem => Nat.lt_irrefl _ (hst.names_lt _ hmem)
    exact List.nodup_append.2 ⟨hst.nodup_names, List.nodup_singleton _,
      fun i hi j hj hij => hnew (List.mem_singleton.1 hj ▸ hij ▸ hi)⟩

theorem names_push : (st.push h s).names = st.names := by
  unfold push
  split <;> rfl

theorem length_lists_push : (st.push h s).lists.length = st.lists.length := by
  unfold push
  split
  · exact List.length_modify _ _ _
  · rfl

theorem Separated.push (hst : st.Separated) (h : Handle) (s : Segment) :
    (st.push h s).Separated := by
  refine ⟨fun i hi => ?_, ?_⟩
  · rw [names_push] at hi
    rw [length_lists_push]
    exact hst.names_lt i hi
  · rw [names_push]
    exact hst.nodup_names

/-! ## What the handles show after each change -/

@[simp] theorem get?_alloc_self : (st.alloc q).1.get? (st.alloc q).2 = some q := by
  rw [get?_eq_some_iff, segments?_eq_some_iff]
  exact ⟨st.lists.length, by simp [alloc, newList, nameList], by simp [alloc, newList, nameList]⟩

/-- A new name is behind a handle that was good for nothing before. -/
theorem get?_alloc_fresh : st.get? (st.alloc q).2 = none := by
  simp [get?, segments?, alloc, newList, nameList]

theorem get?_alloc_of_get? (hp : st.get? k = some p) : (st.alloc q).1.get? k = some p := by
  rw [get?_eq_some_iff, segments?_eq_some_iff] at *
  obtain ⟨i, hi, hlist⟩ := hp
  have hname : k.index < st.names.length := (List.getElem?_eq_some_iff.1 hi).1
  have hlt : i < st.lists.length := (List.getElem?_eq_some_iff.1 hlist).1
  refine ⟨i, ?_, ?_⟩
  · rw [← hi]
    exact List.getElem?_append_left hname
  · rw [← hlist]
    exact List.getElem?_append_left hlt

theorem lists_push {i : Nat} (hi : st.names[h.index]? = some i) :
    (st.push h s).lists = st.lists.modify i (· ++ [s]) := by
  simp [push, hi]

theorem get?_push_self (hq : st.get? h = some q) : (st.push h s).get? h = some (q.push s) := by
  rw [get?_eq_some_iff, segments?_eq_some_iff] at *
  obtain ⟨i, hi, hlist⟩ := hq
  refine ⟨i, by rw [names_push, hi], ?_⟩
  simp [lists_push hi, hlist]

theorem Separated.get?_push_of_ne (hst : st.Separated) (hk : k ≠ h) (hp : st.get? k = some p) :
    (st.push h s).get? k = some p := by
  rw [get?_eq_some_iff, segments?_eq_some_iff] at *
  obtain ⟨j, hj, hlist⟩ := hp
  refine ⟨j, by rw [names_push, hj], ?_⟩
  cases hi : st.names[h.index]? with
  | none => simpa [Store.push, hi] using hlist
  | some i =>
    have hne : i ≠ j := by
      rintro rfl
      have hlt : k.index < st.names.length := (List.getElem?_eq_some_iff.1 hj).1
      have hindex : k.index = h.index :=
        (List.getElem?_inj hlt hst.nodup_names).1 (hj.trans hi.symm)
      exact hk (by cases k; cases h; cases hindex; rfl)
    simpa [lists_push hi, hne] using hlist

end Store

end DottedNames
