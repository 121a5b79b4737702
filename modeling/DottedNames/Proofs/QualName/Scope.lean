import DottedNames.Proofs.QualName.TextOrder
import Mathlib.Data.List.Infix

/-!
# Scopes in the order of names

A scope encloses itself and all names that go on from it. The order of names keeps these together:
what stands between two names that a scope encloses is enclosed by it, too (`Encloses.of_between`).
For where two names differ behind the scope makes no difference to a name that differs from the
scope itself. So in a sorted list the names that a scope encloses form one block, and the scope
stands in front of it, because it comes before everything that goes on from it.
-/

namespace DottedNames

/-- Between a list and one that begins with it there are only lists that begin with it. -/
theorem prefix_of_le_of_le {α : Type} [LinearOrder α] {xs ys zs : List α} (h : xs <+: zs)
    (hxy : xs ≤ ys) (hyz : ys ≤ zs) : xs <+: ys := by
  induction xs generalizing ys zs with
  | nil => exact List.nil_prefix
  | cons x xs ih =>
    obtain ⟨rest, rfl⟩ := h
    cases ys with
    | nil => exact absurd hxy (not_le.2 (List.nil_lt_cons x xs))
    | cons y ys =>
      rw [← not_lt, List.cons_lt_cons_iff, not_or] at hxy
      rw [← not_lt, List.cons_append, List.cons_lt_cons_iff, not_or] at hyz
      have heq : y = x := le_antisymm (not_lt.1 hyz.1) (not_lt.1 hxy.1)
      subst heq
      have hle : xs ≤ ys := not_lt.1 fun hlt => hxy.2 ⟨rfl, hlt⟩
      have hle' : ys ≤ xs ++ rest := not_lt.1 fun hlt => hyz.2 ⟨rfl, hlt⟩
      exact List.cons_prefix_cons.2 ⟨rfl, ih (List.prefix_append xs rest) hle hle'⟩

namespace QualName

variable {f p q r : QualName} {s : Segment} {ps : List QualName}

/-! ## Scopes -/

/-- The scope `f` encloses the name: it is the name itself, or the name goes on from it. -/
def Encloses (f q : QualName) : Prop := f.segments <+: q.segments

theorem encloses_iff_texts : f.Encloses q ↔ f.texts <+: q.texts := by
  have hinjective : Function.Injective Segment.text := by
    intro s t h
    have hs := Segment.ofText?_text s
    rw [h, Segment.ofText?_text] at hs
    exact (Option.some.inj hs).symm
  exact (List.prefix_map_iff_of_injective hinjective).symm

theorem Encloses.texts_le (h : f.Encloses q) : f.texts ≤ q.texts :=
  not_lt.1 (encloses_iff_texts.1 h).le

theorem Encloses.of_between (h : f.Encloses r) (hfq : f.texts ≤ q.texts)
    (hqr : q.texts ≤ r.texts) : f.Encloses q :=
  encloses_iff_texts.2 (prefix_of_le_of_le (encloses_iff_texts.1 h) hfq hqr)

theorem texts_lt_texts_push (f : QualName) (s : Segment) : f.texts < (f.push s).texts := by
  have hencloses : f.Encloses (f.push s) := List.prefix_append _ _
  refine lt_of_le_of_ne hencloses.texts_le fun heq => ?_
  have hlength := congrArg List.length heq
  simp [texts] at hlength

/-- A name with more than one segment has a parent, which it goes on from. -/
theorem exists_eq_push (h : q.isSimple = false) : ∃ p s, q = p.push s ∧ q.parent? = some p := by
  have hdrop : q.segments.dropLast ≠ [] := by
    intro hnil
    have hlength := congrArg List.length hnil
    have hpos : 0 < q.segments.length := List.length_pos_of_ne_nil q.segments_ne_nil
    rw [List.length_dropLast, List.length_nil] at hlength
    have hone : q.length = 1 := by
      rw [length]
      omega
    simp [isSimple, hone] at h
  have hpush : q = push ⟨q.segments.dropLast, hdrop⟩ q.leaf := by
    cases q
    simp [push, leaf, List.dropLast_append_getLast]
  exact ⟨_, _, hpush, by conv_lhs => rw [hpush, parent?_push]⟩

/-! ## Sorted lists -/

/-- In the list, the names that `f` encloses stand next to each other, and `f` in front of the
others if it is there. -/
def Gathered (f : QualName) (ps : List QualName) : Prop :=
  ∃ before block after, ps = before ++ (block ++ after) ∧
    (∀ q ∈ block, f.Encloses q) ∧ (∀ q ∈ before ++ after, ¬ f.Encloses q) ∧
    (f ∈ ps → block.head? = some f)

theorem exists_block (hps : ps.Pairwise fun p q => p.texts ≤ q.texts) (f : QualName) :
    ∃ before block after, ps = before ++ (block ++ after) ∧
      (∀ q ∈ block, f.Encloses q) ∧ ∀ q ∈ before ++ after, ¬ f.Encloses q := by
  induction ps with
  | nil => exact ⟨[], [], [], rfl, by simp, by simp⟩
  | cons p ps ih =>
    obtain ⟨hp, hps⟩ := List.pairwise_cons.1 hps
    obtain ⟨before, block, after, rfl, hblock, hout⟩ := ih hps
    by_cases hfp : f.Encloses p
    · by_cases hnil : block = []
      · subst hnil
        refine ⟨[], [p], before ++ after, rfl, ?_, hout⟩
        exact List.forall_mem_singleton.2 hfp
      · obtain ⟨r, hr⟩ := List.exists_mem_of_ne_nil block hnil
        -- A name in front of the block would stand between `p` and the block.
        have hbefore : before = [] := by
          rw [List.eq_nil_iff_forall_not_mem]
          intro q hq
          have hpq : p.texts ≤ q.texts := hp q (List.mem_append_left _ hq)
          have hqr : q.texts ≤ r.texts :=
            (List.pairwise_append.1 hps).2.2 q hq r (List.mem_append_left _ hr)
          have hfq : f.Encloses q := (hblock r hr).of_between (hfp.texts_le.trans hpq) hqr
          exact hout q (List.mem_append_left _ hq) hfq
        subst hbefore
        refine ⟨[], p :: block, after, rfl, ?_, hout⟩
        exact List.forall_mem_cons.2 ⟨hfp, hblock⟩
    · refine ⟨p :: before, block, after, rfl, hblock, ?_⟩
      exact List.forall_mem_cons.2 ⟨hfp, hout⟩

theorem gathered_of_pairwise (hps : ps.Pairwise fun p q => p.texts ≤ q.texts) (f : QualName) :
    f.Gathered ps := by
  obtain ⟨before, block, after, rfl, hblock, hout⟩ := exists_block hps f
  refine ⟨before, block, after, rfl, hblock, hout, fun hf => ?_⟩
  have hmem : f ∈ block := by
    by_contra hnot
    have hrest : f ∈ before ++ after := by
      simp only [List.mem_append] at hf ⊢
      tauto
    exact hout f hrest (List.prefix_refl _)
  cases block with
  | nil => cases hmem
  | cons q block =>
    -- The first name of the block is not behind the scope, and not in front of it either.
    have hle : q.texts ≤ f.texts := by
      rcases List.mem_cons.1 hmem with rfl | hmem
      · exact le_rfl
      · have hsorted := (List.pairwise_append.1 (List.pairwise_append.1 hps).2.1).1
        exact List.rel_of_pairwise_cons hsorted hmem
    have hge : f.texts ≤ q.texts := (hblock q List.mem_cons_self).texts_le
    rw [List.head?_cons, texts_injective (le_antisymm hle hge)]

theorem related_le_name_iff :
    Operand.related .le (.name p) (.name q) = .ok true ↔ p.texts ≤ q.texts := by
  show Except.ok (Designator.relatedName .le p (.name q)) = .ok true ↔ _
  rw [Except.ok.injEq]
  exact Designator.relatedName_iff

/-- Whatever stands between a scope and a name that the scope encloses is enclosed by it. In
particular, a scope comes before the names that go on from it, and a name with more than one segment
has a parent and comes after it. So in every sorted list the names that a scope encloses form one
block with the scope itself in front, and sorting names gives such a list. -/
theorem enclosed_contiguous :
    (∀ f q r : QualName, f.Encloses r → Operand.related .le (.name f) (.name q) = .ok true →
      Operand.related .le (.name q) (.name r) = .ok true → f.Encloses q) ∧
    (∀ (f : QualName) (s : Segment),
      Operand.related .lt (.name f) (.name (f.push s)) = .ok true) ∧
    (∀ q : QualName, q.isSimple = false → ∃ p, q.parent? = some p ∧
      Operand.related .lt (.name p) (.name q) = .ok true) ∧
    (∀ ps : List QualName,
      (ps.Pairwise fun p q => Operand.related .le (.name p) (.name q) = .ok true) →
        ∀ f : QualName, f.Gathered ps) ∧
    ∀ qs : List QualName, ∃ ps : List QualName, ps.Perm qs ∧
      Operand.sort false (qs.map .name) = .ok (ps.map .name) ∧
      ps.Pairwise fun p q => Operand.related .le (.name p) (.name q) = .ok true := by
  simp only [related_le_name_iff]
  have hpush : ∀ (f : QualName) (s : Segment),
      Operand.related .lt (.name f) (.name (f.push s)) = .ok true := by
    intro f s
    rw [Operand.related_lt_name, decide_eq_true (texts_lt_texts_push f s)]
  refine ⟨fun f q r => Encloses.of_between, hpush, fun q hq => ?_,
    fun ps => gathered_of_pairwise, fun qs => ?_⟩
  · obtain ⟨p, s, hq, hparent⟩ := exists_eq_push hq
    exact ⟨p, hparent, hq ▸ hpush p s⟩
  · have hsort := Operand.sort_eq false (Operand.pairwise_orderedBy_name qs)
    exact ⟨_, Operand.perm_sortedIn false, hsort, Operand.pairwise_sortedIn false⟩

/-- Between `a` and `a.c` stands `a.b`, and in a sorted list `a_` stands behind all three. -/
theorem enclosed_contiguous_below :
    let segment (c : Char) (h : Segment.spells [c] = true) : Segment := ⟨[c], h⟩
    let a := ofSegment (segment 'a' rfl)
    let ab := a.push (segment 'b' rfl)
    let ac := a.push (segment 'c' rfl)
    let other := ofSegment ⟨['a', '_'], rfl⟩
    a.Encloses ac ∧ Operand.related .le (.name a) (.name ab) = .ok true ∧
      Operand.related .le (.name ab) (.name ac) = .ok true ∧ a.Encloses ab ∧
      ab.isSimple = false ∧
      (∃ p, ab.parent? = some p ∧ Operand.related .lt (.name p) (.name ab) = .ok true) ∧
      ([a, ab, ac, other].Pairwise fun p q =>
        Operand.related .le (.name p) (.name q) = .ok true) ∧
      a.Gathered [a, ab, ac, other] := by
  intro segment a ab ac other
  obtain ⟨hbetween, -, hparent, hgathered, -⟩ := enclosed_contiguous
  have hac : a.Encloses ac := List.prefix_append _ _
  have hab : Operand.related .le (.name a) (.name ab) = .ok true := rfl
  have habc : Operand.related .le (.name ab) (.name ac) = .ok true := rfl
  have hsorted : [a, ab, ac, other].Pairwise fun p q =>
      Operand.related .le (.name p) (.name q) = .ok true := by
    simp only [List.pairwise_cons, List.mem_cons, List.not_mem_nil, or_false]
    refine ⟨?_, ?_, ?_, nofun, List.Pairwise.nil⟩
    · rintro q (rfl | rfl | rfl) <;> rfl
    · rintro q (rfl | rfl) <;> rfl
    · rintro q rfl
      rfl
  exact ⟨hac, hab, habc, hbetween a ab ac hac hab habc, rfl, hparent ab rfl, hsorted,
    hgathered _ hsorted a⟩

end QualName

end DottedNames
