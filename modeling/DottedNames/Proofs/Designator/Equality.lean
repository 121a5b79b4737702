import DottedNames.Proofs.QualName.Reading
import DottedNames.Proofs.Script.Run

/-!
# Equality of segments and names

A segment counts as the simple name made of it. Whatever the kinds of two designators, they are
equal exactly when they count as the same name, and this is so exactly when their written forms are
the same (`Designator.same_iff_text_eq`): a written form tells the segments, because none of them
has a dot. The hash is that of the name they count as.
-/

namespace DottedNames

namespace QualName

variable {q : QualName} {s : Segment}

theorem toSegment?_eq_some_iff : q.toSegment? = some s ↔ q = ofSegment s := by
  obtain ⟨segments, hne⟩ := q
  unfold toSegment? ofSegment
  match segments with
  | [] => exact absurd rfl hne
  | [r] => simp
  | r :: r' :: rest => simp

theorem text_ofSegment (s : Segment) : (ofSegment s).text = s.text := by
  simp [text, texts, Text.join]

end QualName

namespace Designator

variable {x y : Designator}

/-! ## The name a designator counts as -/

theorem text_toQualName (x : Designator) : x.toQualName.text = x.text := by
  cases x with
  | segment s => exact QualName.text_ofSegment s
  | name q => rfl

/-- Designators are equal when they count as the same name. -/
theorem same_iff_toQualName_eq : x.same y = true ↔ x.toQualName = y.toQualName := by
  cases x with
  | segment s =>
    cases y with
    | segment t => simp [same, toQualName, QualName.ofSegment]
    | name q =>
      simp only [same, toQualName, beq_iff_eq, QualName.toSegment?_eq_some_iff]
      exact eq_comm
  | name p =>
    cases y with
    | segment t => simp [same, toQualName, QualName.toSegment?_eq_some_iff]
    | name q => simp [same, toQualName]

/-- Designators that count as the same name can stand for each other on both sides. -/
theorem same_congr {x' y' : Designator} (hx : x.toQualName = x'.toQualName)
    (hy : y.toQualName = y'.toQualName) : x.same y = x'.same y' := by
  rw [Bool.eq_iff_iff, same_iff_toQualName_eq, same_iff_toQualName_eq, hx, hy]

theorem same_iff_text_eq : x.same y = true ↔ x.text = y.text := by
  rw [same_iff_toQualName_eq, ← text_toQualName x, ← text_toQualName y]
  exact ⟨congrArg QualName.text, QualName.text_injective⟩

theorem equivalence_same : Equivalence fun x y : Designator => x.same y = true := by
  simp only [same_iff_text_eq]
  exact ⟨fun _ => rfl, Eq.symm, Eq.trans⟩

/-- The hash of a designator is that of the name it counts as. -/
theorem hashWith_eq {α : Type} (ofText : Text → α) (ofTexts : List Text → α) (x : Designator) :
    x.hashWith ofText ofTexts = (name x.toQualName).hashWith ofText ofTexts := by
  cases x <;> rfl

theorem hashWith_eq_of_same (h : x.same y = true) {α : Type} (ofText : Text → α)
    (ofTexts : List Text → α) : x.hashWith ofText ofTexts = y.hashWith ofText ofTexts := by
  rw [hashWith_eq, hashWith_eq _ _ y, same_iff_toQualName_eq.1 h]

/-! ## Operations on two designators -/

section Operations

open Script

variable {m : Machine} {on arg : Expr}

theorem answer_equal (hm : m.Sound) (hx : m.worth on = .ok (.designator x))
    (hy : m.worth arg = .ok (.designator y)) :
    m.answer (.equal on arg) = .ok (.datum (.bool (x.same y))) :=
  hm.answer_viewPair hx hy rfl rfl

theorem answer_unequal (hm : m.Sound) (hx : m.worth on = .ok (.designator x))
    (hy : m.worth arg = .ok (.designator y)) :
    m.answer (.unequal on arg) = .ok (.datum (.bool !(x.same y))) :=
  hm.answer_viewPair hx hy rfl rfl

theorem answer_sameHash (hm : m.Sound) (hx : m.worth on = .ok (.designator x))
    (hy : m.worth arg = .ok (.designator y)) (h : x.same y = true) :
    m.answer (.sameHash on arg) = .ok (.datum (.bool true)) := by
  refine hm.answer_viewPair hx hy rfl ?_
  have hhash := hashWith_eq_of_same h HashKey.text HashKey.texts
  show Except.ok (Operand.datum (.bool
    (x.hashWith HashKey.text HashKey.texts == y.hashWith HashKey.text HashKey.texts))) = _
  rw [hhash, beq_self_eq_true]

end Operations

/-- Equality of segments and names is an equivalence relation, whatever the kinds of the two sides,
and it is equality of the written forms. In every state that a script can reach, two values are
different exactly when they are not equal. Equal values have equal hashes, whatever the hashes of
texts and of lists of texts are. So a segment and the simple name made of it can stand for each
other in equality and in hashing. -/
theorem equal_iff_same_text :
    (Equivalence fun x y : Designator => x.same y = true) ∧
    (∀ x y : Designator, x.same y = true ↔ x.text = y.text) ∧
    (∀ (steps : List Script.Step) (on arg : Script.Expr) (x y : Designator),
      let m := Script.Machine.empty.run steps
      m.worth on = .ok (.designator x) → m.worth arg = .ok (.designator y) →
        m.answer (.equal on arg) = .ok (.datum (.bool (x.same y))) ∧
        m.answer (.unequal on arg) = .ok (.datum (.bool !(x.same y))) ∧
        (x.same y = true → m.answer (.sameHash on arg) = .ok (.datum (.bool true)))) ∧
    (∀ x y : Designator, x.same y = true →
      ∀ (α : Type) (ofText : Text → α) (ofTexts : List Text → α),
        x.hashWith ofText ofTexts = y.hashWith ofText ofTexts) ∧
    ∀ (s : Segment) (x : Designator),
      (segment s).same x = (name (.ofSegment s)).same x ∧
      x.same (segment s) = x.same (name (.ofSegment s)) ∧
      ∀ (α : Type) (ofText : Text → α) (ofTexts : List Text → α),
        (segment s).hashWith ofText ofTexts = (name (.ofSegment s)).hashWith ofText ofTexts := by
  refine ⟨equivalence_same, fun x y => same_iff_text_eq, fun steps on arg x y => ?_,
    fun x y h α ofText ofTexts => hashWith_eq_of_same h ofText ofTexts,
    fun s x => ⟨?_, ?_, fun α ofText ofTexts => rfl⟩⟩
  · intro m hx hy
    have hm : m.Sound := Script.Machine.sound_run_empty steps
    exact ⟨answer_equal hm hx hy, answer_unequal hm hx hy, answer_sameHash hm hx hy⟩
  · exact same_congr rfl rfl
  · exact same_congr rfl rfl

/-- A register holds the simple name made of `a`, and the segment `a` is compared with it. -/
theorem equal_iff_same_text_simple :
    let m := Script.Machine.empty.run [⟨.ofSegment (.segment (.text ['a'])), some ['x']⟩]
    let on := Script.Expr.segment (.text ['a'])
    let arg := Script.Expr.register ['x']
    let s : Segment := ⟨['a'], rfl⟩
    m.worth on = .ok (.designator (.segment s)) ∧
      m.worth arg = .ok (.designator (.name (.ofSegment s))) ∧
      m.answer (.equal on arg) = .ok (.datum (.bool true)) ∧
      m.answer (.unequal on arg) = .ok (.datum (.bool false)) ∧
      m.answer (.sameHash on arg) = .ok (.datum (.bool true)) := by
  intro m on arg s
  have hx : m.worth on = .ok (.designator (.segment s)) := rfl
  have hy : m.worth arg = .ok (.designator (.name (.ofSegment s))) := rfl
  obtain ⟨-, -, hanswers, -, -⟩ := equal_iff_same_text
  obtain ⟨hequal, hunequal, hhash⟩ := hanswers _ on arg _ _ hx hy
  exact ⟨hx, hy, hequal, hunequal, hhash rfl⟩

end Designator

end DottedNames
