import DottedNames.Proofs.Designator.Equality
import Mathlib.Data.Char
import Mathlib.Data.List.Lex

/-!
# The order of segments and names

Only one order relation is decided directly, whether a name comes before another one; the other
relations are read off it and off equality, and where a bare segment stands on the left it is the
name on the right that is asked, for the converse. All of them agree nevertheless: whatever is
asked of whom, the answer is that of the lexicographic order of the texts of the segments, a bare
segment counting as its simple name (`Designator.related?_eq_some_true_iff`). That order is linear,
and two names with the same texts are equal; the laws of the relations follow.
-/

namespace DottedNames

/-- What an order relation means in an order. -/
def OrderRelation.Between {α : Type} [LT α] [LE α] : OrderRelation → α → α → Prop
  | .lt, a, b => a < b
  | .le, a, b => a ≤ b
  | .gt, a, b => b < a
  | .ge, a, b => b ≤ a

theorem OrderRelation.between_converse {α : Type} [LT α] [LE α] (r : OrderRelation) (a b : α) :
    r.converse.Between b a ↔ r.Between a b := by
  cases r <;> exact Iff.rfl

namespace Designator

variable {x y z : Designator} {r : OrderRelation} {p q : QualName}

/-! ## The order behind the relations -/

/-- One of the two designators at least is a name. -/
def Comparable (x y : Designator) : Prop := ∃ q, x = name q ∨ y = name q

/-- The first designator comes before the second one. -/
def Before (x y : Designator) : Prop := x.related? .lt y = some true

theorem Comparable.symm (h : Comparable x y) : Comparable y x := by
  obtain ⟨q, hq⟩ := h
  exact ⟨q, hq.symm⟩

theorem comparable_name_left (p : QualName) (y : Designator) : Comparable (name p) y :=
  ⟨p, .inl rfl⟩

theorem not_comparable_segments (s t : Segment) : ¬ Comparable (segment s) (segment t) := by
  rintro ⟨q, hq | hq⟩ <;> cases hq

/-- Two bare segments are the only designators that are not comparable. -/
theorem related?_eq_none_iff : x.related? r y = none ↔ ¬ Comparable x y := by
  cases x with
  | name p => exact iff_of_false (by simp [related?]) (not_not_intro (comparable_name_left p y))
  | segment s =>
    cases y with
    | name q =>
      exact iff_of_false (by simp [related?]) (not_not_intro (comparable_name_left q _).symm)
    | segment t => exact iff_of_true rfl (not_comparable_segments s t)

theorem exists_related?_of_comparable (h : Comparable x y) (r : OrderRelation) :
    ∃ b, x.related? r y = some b := by
  rw [← Option.isSome_iff_exists, Option.isSome_iff_ne_none]
  exact fun hnone => related?_eq_none_iff.1 hnone h

theorem precedes_iff : p.precedes q = true ↔ p.texts < q.texts := decide_eq_true_iff

/-- Designators are equal when the texts of the segments they count as are. -/
theorem same_iff_texts_eq : x.same y = true ↔ x.toQualName.texts = y.toQualName.texts := by
  rw [same_iff_toQualName_eq]
  exact ⟨congrArg QualName.texts, QualName.texts_injective⟩

/-- What a name tells of a designator is what the order of texts says. -/
theorem relatedName_iff : relatedName r p y = true ↔ r.Between p.texts y.toQualName.texts := by
  have hbefore : p.precedes y.toQualName = true ↔ p.texts < y.toQualName.texts := precedes_iff
  have hsame : (name p).same y = true ↔ p.texts = y.toQualName.texts := same_iff_texts_eq
  cases r with
  | lt => exact hbefore
  | le => simp only [relatedName, OrderRelation.Between, Bool.or_eq_true, hbefore, hsame,
      le_iff_lt_or_eq]
  | gt =>
    simp only [relatedName, OrderRelation.Between, Bool.and_eq_true, Bool.not_eq_true', ←
      Bool.not_eq_true, hbefore, hsame, ← not_or, ← le_iff_lt_or_eq, not_le]
  | ge => simp only [relatedName, OrderRelation.Between, Bool.not_eq_true', ← Bool.not_eq_true,
      hbefore, not_lt]

/-- Whichever of the two is asked, the answer is what the order of texts says. -/
theorem related?_eq_some_true_iff :
    x.related? r y = some true ↔
      Comparable x y ∧ r.Between x.toQualName.texts y.toQualName.texts := by
  cases x with
  | name p =>
    simp only [related?, Option.some.injEq, relatedName_iff, comparable_name_left, true_and]
    exact Iff.rfl
  | segment s =>
    cases y with
    | name q =>
      have hcomparable : Comparable (segment s) (name q) := (comparable_name_left q _).symm
      simp only [related?, Option.some.injEq, relatedName_iff, hcomparable, true_and,
        OrderRelation.between_converse]
      exact Iff.rfl
    | segment t => simp [related?, not_comparable_segments]

/-! ## The laws -/

/-- Exactly one of three holds: the first one comes before, the two are equal, or the second one
comes before. -/
theorem before_trichotomy (h : Comparable x y) :
    (x.Before y ∧ ¬ x.same y ∧ ¬ y.Before x) ∨ (¬ x.Before y ∧ x.same y ∧ ¬ y.Before x) ∨
      (¬ x.Before y ∧ ¬ x.same y ∧ y.Before x) := by
  have hxy : x.Before y ↔ x.toQualName.texts < y.toQualName.texts :=
    related?_eq_some_true_iff.trans (and_iff_right h)
  have hyx : y.Before x ↔ y.toQualName.texts < x.toQualName.texts :=
    related?_eq_some_true_iff.trans (and_iff_right h.symm)
  rw [hxy, hyx, same_iff_texts_eq]
  rcases lt_trichotomy x.toQualName.texts y.toQualName.texts with hlt | heq | hgt
  · exact .inl ⟨hlt, hlt.ne, hlt.asymm⟩
  · exact .inr (.inl ⟨heq.not_lt, heq, heq.not_gt⟩)
  · exact .inr (.inr ⟨hgt.asymm, hgt.ne', hgt⟩)

theorem Before.trans (h : Comparable x z) (hxy : x.Before y) (hyz : y.Before z) : x.Before z := by
  have hlt := (related?_eq_some_true_iff.1 hxy).2
  have hlt' := (related?_eq_some_true_iff.1 hyz).2
  exact related?_eq_some_true_iff.2 ⟨h, lt_trans hlt hlt'⟩

theorem related?_le_iff (h : Comparable x y) :
    x.related? .le y = some true ↔ x.Before y ∨ x.same y := by
  rw [Before, related?_eq_some_true_iff, related?_eq_some_true_iff, same_iff_texts_eq]
  simp only [h, true_and]
  exact le_iff_lt_or_eq

/-- Two answers are the same if they are there for the same pairs and say so of the same ones. -/
theorem related?_congr {x' y' : Designator} {r' : OrderRelation}
    (hcomparable : Comparable x y ↔ Comparable x' y')
    (hbetween : r.Between x.toQualName.texts y.toQualName.texts ↔
      r'.Between x'.toQualName.texts y'.toQualName.texts) :
    x.related? r y = x'.related? r' y' := by
  by_cases h : Comparable x y
  · obtain ⟨b, hb⟩ := exists_related?_of_comparable h r
    obtain ⟨b', hb'⟩ := exists_related?_of_comparable (hcomparable.1 h) r'
    have htrue : x.related? r y = some true ↔ x'.related? r' y' = some true := by
      rw [related?_eq_some_true_iff, related?_eq_some_true_iff, hcomparable, hbetween]
    rw [hb, hb'] at htrue ⊢
    simpa [← Bool.eq_iff_iff] using htrue
  · rw [related?_eq_none_iff.2 h, related?_eq_none_iff.2 (mt hcomparable.2 h)]

/-- The converse relation holds the other way round. -/
theorem related?_converse (r : OrderRelation) (x y : Designator) :
    y.related? r.converse x = x.related? r y :=
  related?_congr ⟨Comparable.symm, Comparable.symm⟩ (r.between_converse _ _)

/-- A bare segment can be replaced by the simple name made of it. -/
theorem related?_toQualName (h : Comparable x y) (r : OrderRelation) :
    x.related? r y = (name x.toQualName).related? r (name y.toQualName) :=
  related?_congr (iff_of_true h (comparable_name_left _ _)) Iff.rfl

end Designator

namespace Operand

open Designator

variable {x y : Operand} {d e : Designator} {r : OrderRelation}

/-- Two bare segments, or a designator and something that is none. -/
def Unordered (x y : Operand) : Prop :=
  (∃ s t, x = segment s ∧ y = segment t) ∨
    (∃ d, x = designator d ∧ ∀ e, y ≠ designator e) ∨
      ∃ e, y = designator e ∧ ∀ d, x ≠ designator d

theorem related_of_related? {b : Bool} (h : d.related? r e = some b) :
    related r (designator d) (designator e) = .ok b := by
  simp only [related, h]

/-- Where one of two designators is a name, the order of texts decides which one comes first. -/
theorem related_lt_of_comparable (h : Comparable d e)
    {_ : Decidable (d.toQualName.texts < e.toQualName.texts)} :
    related .lt (designator d) (designator e) =
      .ok (decide (d.toQualName.texts < e.toQualName.texts)) := by
  obtain ⟨b, hb⟩ := exists_related?_of_comparable h .lt
  have hiff : b = true ↔ d.toQualName.texts < e.toQualName.texts := by
    have htrue := related?_eq_some_true_iff (x := d) (y := e) (r := .lt)
    rw [hb, and_iff_right h, Option.some.injEq] at htrue
    exact htrue
  rw [related_of_related? hb, Except.ok.injEq, Bool.eq_iff_iff, hiff, decide_eq_true_iff]

/-- What is not ordered is refused, and the fault tells what was to be compared. -/
theorem related_of_unordered (h : Unordered x y) :
    related r x y = .error (.unordered r x.kind y.kind) := by
  rcases h with ⟨s, t, rfl, rfl⟩ | ⟨d, rfl, hy⟩ | ⟨e, rfl, hx⟩
  · rfl
  · cases y with
    | designator e => exact absurd rfl (hy e)
    | _ => rfl
  · cases x with
    | designator d => exact absurd rfl (hx d)
    | datum d => cases d <;> rfl
    | _ => rfl

end Operand

namespace Script.Machine

variable {m : Machine} {on arg : Expr} {x y : Operand} {r : OrderRelation}

theorem Sound.answer_related (hm : m.Sound) (hx : m.worth on = .ok x) (hy : m.worth arg = .ok y) :
    m.answer (.related r on arg) = (Operand.related r x y).map fun b => .datum (.bool b) := by
  refine hm.answer_viewPair hx hy rfl ?_
  cases Operand.related r x y <;> rfl

end Script.Machine

namespace Designator

/-- The order of segments and names is a strict total order that agrees with equality. Between two
designators of which one at least is a name every relation gives an answer; exactly one of before,
equal and after holds; before is transitive; the other three relations are made of before and
equality; and a bare segment can be replaced by the simple name made of it. In every state that a
script can reach these are the answers, while two bare segments, and a designator and anything
else, are refused by all four relations and answered by equality. -/
theorem order_isStrictTotal :
    (∀ x y, Comparable x y → ∀ r, ∃ b, x.related? r y = some b) ∧
    (∀ x y, Comparable x y →
      (x.Before y ∧ ¬ x.same y ∧ ¬ y.Before x) ∨ (¬ x.Before y ∧ x.same y ∧ ¬ y.Before x) ∨
        (¬ x.Before y ∧ ¬ x.same y ∧ y.Before x)) ∧
    (∀ x y z, Comparable x y → Comparable y z → Comparable x z →
      x.Before y → y.Before z → x.Before z) ∧
    (∀ x y, Comparable x y →
      (x.related? .le y = some true ↔ x.Before y ∨ x.same y) ∧
      x.related? .gt y = y.related? .lt x ∧ x.related? .ge y = y.related? .le x) ∧
    (∀ x y, Comparable x y →
      (∀ r, x.related? r y = (name x.toQualName).related? r (name y.toQualName)) ∧
      x.same y = (name x.toQualName).same (name y.toQualName)) ∧
    ∀ (steps : List Script.Step) (on arg : Script.Expr),
      let m := Script.Machine.empty.run steps
      (∀ x y : Designator, m.worth on = .ok (.designator x) → m.worth arg = .ok (.designator y) →
        (∀ r b, x.related? r y = some b →
          m.answer (.related r on arg) = .ok (.datum (.bool b))) ∧
        m.answer (.equal on arg) = .ok (.datum (.bool (x.same y))) ∧
        m.answer (.unequal on arg) = .ok (.datum (.bool !(x.same y)))) ∧
      ∀ x y : Operand, x.Unordered y → m.worth on = .ok x → m.worth arg = .ok y →
        (∀ r, m.answer (.related r on arg) = .error (.unordered r x.kind y.kind)) ∧
        m.answer (.equal on arg) = .ok (.datum (.bool (x.same y))) ∧
        m.answer (.unequal on arg) = .ok (.datum (.bool !(x.same y))) := by
  refine ⟨fun x y => exists_related?_of_comparable, fun x y => before_trichotomy,
    fun x y z _ _ hxz => Before.trans hxz,
    fun x y h => ⟨related?_le_iff h, (related?_converse .gt x y).symm,
      (related?_converse .ge x y).symm⟩,
    fun x y h => ⟨related?_toQualName h, same_congr rfl rfl⟩, fun steps on arg => ?_⟩
  intro m
  have hm : m.Sound := Script.Machine.sound_run_empty steps
  constructor
  · intro x y hx hy
    refine ⟨fun r b hb => ?_, answer_equal hm hx hy, answer_unequal hm hx hy⟩
    rw [hm.answer_related hx hy, Operand.related_of_related? hb]
    rfl
  · intro x y hxy hx hy
    refine ⟨fun r => ?_, hm.answer_viewPair hx hy rfl rfl, hm.answer_viewPair hx hy rfl rfl⟩
    rw [hm.answer_related hx hy, Operand.related_of_unordered hxy]
    rfl

/-- The segment `b` stands on the left of the name `a.b`, which a register holds, and of itself. -/
theorem order_isStrictTotal_segment_left :
    let m := Script.Machine.empty.run [⟨.readName (.datum (.text ['a', '.', 'b'])), some ['x']⟩]
    let b := Script.Expr.segment (.text ['b'])
    let x := Script.Expr.register ['x']
    ∃ (s : Segment) (q : QualName), m.worth b = .ok (.segment s) ∧ m.worth x = .ok (.name q) ∧
      Before (name q) (segment s) ∧
      m.answer (.related .gt b x) = .ok (.datum (.bool true)) ∧
      m.answer (.related .le b x) = .ok (.datum (.bool false)) ∧
      m.answer (.related .lt b b) = .error (.unordered .lt .segment .segment) ∧
      m.answer (.equal b b) = .ok (.datum (.bool true)) := by
  intro m b x
  obtain ⟨q, hq⟩ : ∃ q, m.worth x = .ok (.name q) := ⟨_, rfl⟩
  let s : Segment := ⟨['b'], rfl⟩
  have hs : m.worth b = .ok (.segment s) := rfl
  have hcomparable : Comparable (segment s) (name q) := ⟨q, .inr rfl⟩
  have hafter : Before (name q) (segment s) := by
    cases hq
    rfl
  obtain ⟨hsome, htrichotomy, -, hrelations, -, hanswers⟩ := order_isStrictTotal
  obtain ⟨hle, hgt, -⟩ := hrelations _ _ hcomparable
  have hnotLe : (segment s).related? .le (name q) = some false := by
    obtain ⟨le, hb⟩ := hsome _ _ hcomparable .le
    cases le with
    | false => exact hb
    | true =>
      rcases htrichotomy _ _ hcomparable with ⟨-, -, h⟩ | ⟨-, -, h⟩ | ⟨hnot, hne, -⟩
      · exact absurd hafter h
      · exact absurd hafter h
      · exact absurd (hle.1 hb) (not_or.2 ⟨hnot, hne⟩)
  obtain ⟨hrelated, -⟩ := (hanswers _ b x).1 _ _ hs hq
  obtain ⟨hrefused, hequal, -⟩ :=
    (hanswers [⟨.readName (.datum (.text ['a', '.', 'b'])), some ['x']⟩] b b).2 _ _
      (.inl ⟨s, s, rfl, rfl⟩) hs hs
  exact ⟨s, q, hs, hq, hafter, hrelated .gt true (hgt.trans hafter), hrelated .le false hnotLe,
    hrefused .lt, hequal⟩

end Designator

end DottedNames
