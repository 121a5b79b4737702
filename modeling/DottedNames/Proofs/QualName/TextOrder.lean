import DottedNames.Proofs.Designator.Order
import DottedNames.Proofs.Operand.Sorting

/-!
# The order of names and of their written forms

Names are ordered segment by segment, and their written forms character by character. The two orders
are the same (`QualName.text_lt_text_iff`), because the dot comes before all characters that a
segment may have: where one segment ends and the other one goes on, the dot or the end of the text
stands against a character that is greater than both. So it makes no difference whether names or
their written forms are compared or sorted.
-/

namespace DottedNames

/-! ## Texts with dots in front -/

namespace Text

variable {s t u v : Text} {ps qs : List Text}

/-- Every character comes behind the dot. -/
def AboveDot (t : Text) : Prop := ∀ c ∈ t, '.' < c

/-- The texts of a list with a dot in front of each of them. -/
def dotted (ps : List Text) : Text := ps.flatMap ('.' :: ·)

theorem aboveDot_cons {c : Char} : AboveDot (c :: t) ↔ '.' < c ∧ AboveDot t := by
  simp [AboveDot]

theorem head?_dotted : ∀ c ∈ (dotted ps).head?, c = '.' := by
  cases ps with
  | nil => simp [dotted]
  | cons p ps => simp [dotted]

theorem cons_join (hps : ps ≠ []) : '.' :: join ['.'] ps = dotted ps := by
  induction ps with
  | nil => exact absurd rfl hps
  | cons p ps ih =>
    by_cases hnil : ps = []
    · simp [hnil, join, dotted]
    · rw [Grammar.join_cons hnil, ih hnil]
      rfl

/-- What follows, if it begins with a dot or is empty, counts only behind equal texts. -/
theorem append_lt_append_iff (hs : AboveDot s) (ht : AboveDot t) (hu : ∀ c ∈ u.head?, c = '.')
    (hv : ∀ c ∈ v.head?, c = '.') : s ++ u < t ++ v ↔ s < t ∨ s = t ∧ u < v := by
  induction s generalizing t with
  | nil =>
    cases t with
    | nil => simp
    | cons d t =>
      -- The first text ends here, and what follows it begins below the other text.
      have hd : '.' < d := (aboveDot_cons.1 ht).1
      have hlt : u < d :: (t ++ v) := by
        cases u with
        | nil => exact List.nil_lt_cons _ _
        | cons c u =>
          obtain rfl : c = '.' := hu c rfl
          exact List.cons_lt_cons_iff.2 (.inl hd)
      exact iff_of_true hlt (.inl (List.nil_lt_cons _ _))
  | cons c s ih =>
    obtain ⟨hc, hs⟩ := aboveDot_cons.1 hs
    cases t with
    | nil =>
      have hnot : ¬ c :: (s ++ u) < v := by
        cases v with
        | nil => exact List.not_lt_nil _
        | cons d v =>
          obtain rfl : d = '.' := hv d rfl
          rw [List.cons_lt_cons_iff]
          rintro (hlt | ⟨rfl, -⟩)
          · exact hc.asymm hlt
          · exact lt_irrefl _ hc
      exact iff_of_false hnot (by simp)
    | cons d t =>
      have htail := ih hs (aboveDot_cons.1 ht).2
      simp only [List.cons_append, List.cons_lt_cons_iff, htail, List.cons.injEq]
      tauto

theorem dotted_lt_dotted_iff (hps : ∀ p ∈ ps, AboveDot p) (hqs : ∀ q ∈ qs, AboveDot q) :
    dotted ps < dotted qs ↔ ps < qs := by
  induction ps generalizing qs with
  | nil =>
    cases qs with
    | nil => simp
    | cons q qs => exact iff_of_true (List.nil_lt_cons _ _) (List.nil_lt_cons _ _)
  | cons p ps ih =>
    cases qs with
    | nil => simp [dotted]
    | cons q qs =>
      obtain ⟨hp, hps⟩ := List.forall_mem_cons.1 hps
      obtain ⟨hq, hqs⟩ := List.forall_mem_cons.1 hqs
      have hcut : ∀ r rs, dotted (r :: rs) = '.' :: (r ++ dotted rs) := fun _ _ => rfl
      rw [hcut, hcut, List.cons_lt_cons_iff, List.cons_lt_cons_iff,
        append_lt_append_iff hp hq head?_dotted head?_dotted, ih hps hqs]
      simp

end Text

/-! ## Names -/

namespace QualName

variable {p q : QualName} {s t : Text}

theorem dot_lt_of_isNameChar {c : Char} (h : Text.isNameChar c = true) : '.' < c := by
  have hlow : ∀ n < 47, Text.isNameChar (Char.ofNat n) = false := by decide
  have hdot : '.' < c ↔ 46 < c.toNat := Iff.rfl
  rw [hdot]
  by_contra hle
  have hfalse := hlow c.toNat (by omega)
  rw [Char.ofNat_toNat, h] at hfalse
  cases hfalse

theorem aboveDot_of_mem_texts (ht : t ∈ q.texts) : t.AboveDot := by
  obtain ⟨s, -, rfl⟩ := List.mem_map.1 ht
  intro c hc
  exact dot_lt_of_isNameChar (Segment.isNameChar_of_mem_text hc)

/-- The written forms of names are ordered as the lists of the texts of their segments are. -/
theorem text_lt_text_iff : p.text < q.text ↔ p.texts < q.texts := by
  have hcons : ∀ r : QualName, '.' :: r.text = Text.dotted r.texts := by
    intro r
    exact Text.cons_join (by simp [texts, r.segments_ne_nil])
  have hlt := Text.dotted_lt_dotted_iff (fun t => aboveDot_of_mem_texts (q := p))
    fun t => aboveDot_of_mem_texts (q := q)
  rw [← hlt, ← hcons, ← hcons, List.cons_lt_cons_iff]
  simp

theorem text_le_text_iff : p.text ≤ q.text ↔ p.texts ≤ q.texts := by
  rw [← not_lt, text_lt_text_iff, not_lt]

end QualName

namespace Operand

open QualName

variable {r : OrderRelation} {s t : Text} {p q : QualName}

/-- The written form of a name as an operand. -/
def writtenForm (q : QualName) : Operand := .datum (.text q.text)

theorem holds_order_iff : r.holds (s.order t) = true ↔ r.Between s t := by
  unfold Text.order
  rcases lt_trichotomy s t with h | rfl | h
  · cases r <;> simp [OrderRelation.holds, OrderRelation.Between, h, h.le, h.not_gt, h.not_ge]
  · cases r <;> simp [OrderRelation.holds, OrderRelation.Between]
  · cases r <;>
      simp [OrderRelation.holds, OrderRelation.Between, h, h.le, h.not_gt, h.not_ge, h.ne']

/-- Names and their written forms are related alike. -/
theorem relatedName_eq_holds_order :
    Designator.relatedName r p (.name q) = r.holds (p.text.order q.text) := by
  rw [Bool.eq_iff_iff, Designator.relatedName_iff, holds_order_iff]
  cases r with
  | lt => exact text_lt_text_iff.symm
  | le => exact text_le_text_iff.symm
  | gt => exact text_lt_text_iff.symm
  | ge => exact text_le_text_iff.symm

theorem related_writtenForm :
    related r (name p) (name q) = related r (writtenForm p) (writtenForm q) :=
  congrArg Except.ok relatedName_eq_holds_order

theorem related_lt_name {_ : Decidable (p.texts < q.texts)} :
    related .lt (name p) (name q) = .ok (decide (p.texts < q.texts)) :=
  related_lt_of_comparable (Designator.comparable_name_left p (.name q))

theorem related_lt_name_text {_ : Decidable (p.text < q.text)} :
    related .lt (name p) (name q) = .ok (decide (p.text < q.text)) := by
  simp only [related_lt_name, text_lt_text_iff]

theorem pairwise_orderedBy_name (qs : List QualName) : qs.Pairwise (OrderedBy name texts) :=
  List.pairwise_of_forall fun _ _ => ⟨related_lt_name, related_lt_name⟩

theorem pairwise_orderedBy_writtenForm (qs : List QualName) :
    qs.Pairwise (OrderedBy writtenForm QualName.text) := by
  refine List.pairwise_of_forall fun p q => ?_
  rw [OrderedBy, ← related_writtenForm, ← related_writtenForm]
  exact ⟨related_lt_name_text, related_lt_name_text⟩

end Operand

/-- The order of names is the order of their written forms by code point: every relation has the
same answer on two names as on their written forms. So names and their written forms are sorted
alike, in ascending and in descending order: the written forms of the sorted names are the sorted
written forms. -/
theorem QualName.order_eq_textOrder :
    (∀ p q : QualName, Operand.related .lt (.name p) (.name q) = .ok (decide (p.text < q.text))) ∧
    (∀ (r : OrderRelation) (p q : QualName), Operand.related r (.name p) (.name q) =
      Operand.related r (.datum (.text p.text)) (.datum (.text q.text))) ∧
    ∀ (descending : Bool) (qs : List QualName), ∃ ps : List QualName,
      ps.Perm qs ∧
      (ps.Pairwise fun p q => if descending then q.text ≤ p.text else p.text ≤ q.text) ∧
      Operand.sort descending (qs.map .name) = .ok (ps.map .name) ∧
      Operand.sort descending (qs.map fun q => .datum (.text q.text)) =
        .ok (ps.map fun q => .datum (.text q.text)) := by
  refine ⟨fun p q => Operand.related_lt_name_text, fun r p q => Operand.related_writtenForm,
    fun descending qs => ?_⟩
  have hkeys : ∀ p q : QualName, p.texts ≤ q.texts ↔ p.text ≤ q.text :=
    fun p q => text_le_text_iff.symm
  have hnames := Operand.sort_eq descending (Operand.pairwise_orderedBy_name qs)
  rw [Operand.sortedIn_congr descending hkeys] at hnames
  exact ⟨_, Operand.perm_sortedIn descending, Operand.pairwise_sortedIn descending, hnames,
    Operand.sort_eq descending (Operand.pairwise_orderedBy_writtenForm qs)⟩

end DottedNames
