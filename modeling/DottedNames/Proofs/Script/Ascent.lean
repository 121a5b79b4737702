import DottedNames.Proofs.QualName.Scope
import DottedNames.Proofs.Script.Construction

/-!
# Up and down a path

A child has its parent and its last segment back, and a name that has a parent is the child of this
parent by its last segment. Only a simple name has none. Going from parent to parent therefore
passes through all prefixes of the segments, one segment less each time: after `k` steps from a name
of `n` segments the first `n - k` are left, for as long as there is one, and the last segments met
on the way are the segments of the name from back to front.
-/

namespace DottedNames

namespace QualName

variable {p q : QualName}

theorem length_pos (q : QualName) : 0 < q.length := List.length_pos_of_ne_nil q.segments_ne_nil

theorem isSimple_iff : q.isSimple = true ↔ q.length = 1 := beq_iff_eq

/-- Only a simple name has no parent. -/
theorem parent?_eq_none_iff : q.parent? = none ↔ q.isSimple = true := by
  rw [isSimple_iff, parent?, ofSegments?]
  have hpos := q.length_pos
  simp only [dite_eq_left_iff, reduceCtorEq, imp_false, not_not, ← List.length_eq_zero_iff,
    List.length_dropLast, length] at hpos ⊢
  omega

/-- A name that is not simple is the child of its parent by its last segment. -/
theorem exists_parent? (h : q.isSimple = false) : ∃ p, q.parent? = some p ∧ p.push q.leaf = q := by
  obtain ⟨p, s, rfl, hparent⟩ := exists_eq_push h
  exact ⟨p, hparent, by rw [leaf_push]⟩

/-- The parent has the segments of a name but the last one. -/
theorem segments_of_parent? (h : q.parent? = some p) :
    p.segments = q.segments.take (q.length - 1) := by
  rw [← ofSegments?_eq_some_iff.1 h, List.dropLast_eq_take, length]

end QualName

namespace Script

/-- Put the parent of what a register holds into the same register. -/
abbrev Step.replaceByParent (r : Text) : Step := ⟨.parent (.register r), some r⟩

/-- Take what one register holds into another one, and there the parent `k` times. -/
def climb (r w : Text) (k : Nat) : List Step :=
  ⟨.value (.register r), some w⟩ :: List.replicate k (Step.replaceByParent w)

namespace Machine

variable {m : Machine} {r t u v w : Text} {p q : QualName} {n : Segment} {k : Nat}

/-! ## Single steps -/

/-- What answers an operation is seen through the register that the operation puts it into. -/
theorem Sound.view?_step_of_answer (hm : m.Sound) {op : Operation} {x : Operand}
    (hx : m.answer op = .ok x) (t : Text) : (m.step ⟨op, some t⟩).1.view? t = some x :=
  hm.view?_step_target ((hm.answer_eq op).symm.trans hx) rfl

/-- An operation that looks at a name and is answered by a name makes this name anew. -/
theorem Sound.shows_of_answer (hm : m.Sound) {op : Operation} (hp : m.answer op = .ok (.name p))
    (hvalue : ∀ e, op ≠ .value e) (hpush : ∀ u, ¬ op.PushesVia u) (t : Text) :
    m.Shows t p (m.step ⟨op, some t⟩).1 :=
  (hm.shows_step (s := ⟨op, some t⟩) rfl hvalue hpush ((hm.answer_eq op).symm.trans hp)).2

theorem Sound.shows_parent (hm : m.Sound) (hq : m.view? r = some (.name q))
    (hp : q.parent? = some p) (t : Text) :
    m.Shows t p (m.step ⟨.parent (.register r), some t⟩).1 := by
  have hanswer := hm.answer_parent hq
  rw [hp] at hanswer
  exact hm.shows_of_answer hanswer nofun (fun _ => Operation.not_pushesVia nofun nofun) t

theorem Sound.shows_copy (hm : m.Sound) (hq : m.view? r = some (.name q)) (t : Text) :
    m.Shows t q (m.step ⟨.copy (.register r), some t⟩).1 := by
  have hanswer : m.answer (.copy (.register r)) = .ok (.name q) := hm.answer_view hq rfl rfl
  exact hm.shows_of_answer hanswer nofun (fun _ => Operation.not_pushesVia nofun nofun) t

/-- Two registers that show one name are equal. -/
theorem Sound.answer_equal_of_view? (hm : m.Sound) (hr : m.view? r = some (.name q))
    (hu : m.view? u = some (.name q)) :
    m.answer (.equal (.register r) (.register u)) = .ok (.datum (.bool true)) := by
  rw [hm.answer_equal hr hu, Operand.same_name_self]

theorem Sound.answer_parent_eq_null_iff (hm : m.Sound) (hq : m.view? r = some (.name q)) :
    m.answer (.parent (.register r)) = .ok (.datum .null) ↔
      m.answer (.isSimple (.register r)) = .ok (.datum (.bool true)) := by
  rw [hm.answer_parent hq, hm.answer_isSimple hq]
  simp only [Except.ok.injEq, Operand.datum.injEq, Datum.bool.injEq, ← QualName.parent?_eq_none_iff]
  cases q.parent? <;> simp [Operand.ofName?]

/-- The child of the parent by the last segment is the name again. -/
theorem Sound.view?_run_rejoin (hm : m.Sound) (hq : m.view? r = some (.name q))
    (hsimple : q.isSimple = false) (ht : t ≠ r) (hu : u ≠ r) (hv : v ≠ r) (hut : u ≠ t) :
    let m' := m.run [⟨.parent (.register r), some t⟩, ⟨.leaf (.register r), some u⟩,
      ⟨.child (.register t) (.register u), some v⟩]
    m'.view? v = some (.name q) ∧ m'.view? r = some (.name q) := by
  obtain ⟨p, hp, hpush⟩ := QualName.exists_parent? hsimple
  let m₁ := (m.step ⟨.parent (.register r), some t⟩).1
  let m₂ := (m₁.step ⟨.leaf (.register r), some u⟩).1
  have hm₁ : m.Shows t p m₁ := hm.shows_parent hq hp t
  have hr₁ : m₁.view? r = some (.name q) := (hm₁.view?_of_ne ht.symm).trans hq
  have hleaf : m₂.view? u = some (.segment q.leaf) :=
    hm₁.sound.view?_step_of_answer (hm₁.sound.answer_leaf hr₁) u
  have hkept : ∀ {x}, u ≠ x → m₂.view? x = m₁.view? x := fun hux =>
    hm₁.sound.view?_step_of_unpushed (fun h => hux (Option.some.inj h)) fun _ _ => rfl
  have hparent : m₂.view? t = some (.name p) := (hkept hut).trans hm₁.view?_eq
  obtain ⟨-, hchild⟩ :=
    (hm₁.sound.step _).shows_child (worth_of_view? hparent) (worth_of_view? hleaf) v
  rw [hpush] at hchild
  exact ⟨hchild.view?_eq, (hchild.view?_of_ne hv.symm).trans ((hkept hu).trans hr₁)⟩

/-! ## From parent to parent -/

theorem run_climb_succ :
    m.run (climb r w (k + 1)) = ((m.run (climb r w k)).step (.replaceByParent w)).1 := by
  rw [climb, List.replicate_succ', ← List.cons_append, run_append]
  rfl

/-- After `k` steps the last `k` segments are gone. -/
theorem Sound.view?_run_climb (hm : m.Sound) (hq : m.view? r = some (.name q))
    (hk : k < q.length) :
    ∃ p : QualName, (m.run (climb r w k)).view? w = some (.name p) ∧
      p.segments = q.segments.take (q.length - k) ∧ p.length = q.length - k := by
  induction k with
  | zero =>
    refine ⟨q, ?_, (List.take_of_length_le le_rfl).symm, rfl⟩
    exact hm.view?_step_target (worth_of_view? hq) rfl
  | succ k ih =>
    obtain ⟨p, hview, hsegments, hlength⟩ := ih (by omega)
    have hsimple : p.isSimple = false := by
      rw [← Bool.not_eq_true, QualName.isSimple_iff]
      omega
    obtain ⟨p', hp', -⟩ := QualName.exists_parent? hsimple
    have htake : p'.segments = q.segments.take (q.length - (k + 1)) := by
      rw [QualName.segments_of_parent? hp', hsegments, hlength, List.take_take]
      congr 1
      omega
    refine ⟨p', ?_, htake, ?_⟩
    · rw [run_climb_succ]
      exact ((hm.run _).shows_parent hview hp' w).view?_eq
    · rw [QualName.length, htake, List.length_take, ← QualName.length]
      omega

theorem Sound.answer_parts_climb (hm : m.Sound) (hq : m.view? r = some (.name q))
    (hk : k < q.length) :
    (m.run (climb r w k)).answer (.parts (.register w)) =
      .ok (.tuple (q.segments.take (q.length - k))) := by
  obtain ⟨p, hview, hsegments, -⟩ := hm.view?_run_climb (w := w) hq hk
  rw [(hm.run _).answer_parts hview, hsegments]

/-- The name is simple after as many steps as it has segments behind the first one, and not
before. -/
theorem Sound.answer_isSimple_climb (hm : m.Sound) (hq : m.view? r = some (.name q))
    (hk : k < q.length) :
    (m.run (climb r w k)).answer (.isSimple (.register w)) =
      .ok (.datum (.bool (k == q.length - 1))) := by
  obtain ⟨p, hview, -, hlength⟩ := hm.view?_run_climb (w := w) hq hk
  have hsimple : p.isSimple = (k == q.length - 1) := by
    rw [Bool.eq_iff_iff, QualName.isSimple_iff, beq_iff_eq]
    omega
  rw [(hm.run _).answer_isSimple hview, hsimple]

theorem Sound.exists_answer_leaf_climb (hm : m.Sound) (hq : m.view? r = some (.name q))
    (hk : k < q.length) :
    ∃ s, q.segments[q.length - 1 - k]? = some s ∧
      (m.run (climb r w k)).answer (.leaf (.register w)) = .ok (.segment s) := by
  obtain ⟨p, hview, hsegments, hlength⟩ := hm.view?_run_climb (w := w) hq hk
  have hlast : p.segments[p.length - 1]? = some p.leaf := by
    rw [QualName.length, ← List.getLast?_eq_getElem?]
    exact List.getLast?_eq_some_getLast p.segments_ne_nil
  rw [hlength, hsegments, List.getElem?_take_of_lt (by omega), Nat.sub_right_comm] at hlast
  exact ⟨p.leaf, hlast, (hm.run _).answer_leaf hview⟩

/-- The last segments met on the way are those of the name from back to front. -/
theorem Sound.reverse_map_leaf_climb (hm : m.Sound) (hq : m.view? r = some (.name q)) :
    ((List.range q.length).map fun k =>
        (m.run (climb r w k)).answer (.leaf (.register w))).reverse =
      q.segments.map fun s => .ok (.segment s) := by
  refine List.ext_getElem? fun i => ?_
  by_cases hi : i < q.length
  · obtain ⟨s, hs, hleaf⟩ := hm.exists_answer_leaf_climb (w := w) (k := q.length - 1 - i) hq
      (by omega)
    rw [show q.length - 1 - (q.length - 1 - i) = i by omega] at hs
    rw [List.getElem?_reverse (by simpa using hi), List.getElem?_map, List.getElem?_map, hs]
    simp only [List.length_map, List.length_range]
    rw [List.getElem?_range (by omega)]
    exact congrArg some hleaf
  · have hlength : q.segments.length ≤ i := Nat.le_of_not_lt hi
    rw [List.getElem?_eq_none (by simpa using Nat.le_of_not_lt hi),
      List.getElem?_eq_none (by simpa using hlength)]

/-- Exactly the prefixes of the segments that have a segment are passed through. -/
theorem Sound.prefix_iff_exists_climb (hm : m.Sound) (hq : m.view? r = some (.name q))
    {ss : List Segment} (hss : ss ≠ []) :
    ss <+: q.segments ↔
      ∃ k < q.length, (m.run (climb r w k)).answer (.parts (.register w)) = .ok (.tuple ss) := by
  constructor
  · intro hinit
    have hle : ss.length ≤ q.length := hinit.length_le
    have hpos : 0 < ss.length := List.length_pos_of_ne_nil hss
    refine ⟨q.length - ss.length, by omega, ?_⟩
    rw [hm.answer_parts_climb hq (by omega), show q.length - (q.length - ss.length) = ss.length by
      omega, ← List.prefix_iff_eq_take.1 hinit]
  · rintro ⟨k, hk, hparts⟩
    rw [hm.answer_parts_climb hq hk] at hparts
    cases hparts
    exact List.take_prefix _ _

/-- Going up and down a path are inverse to each other. A child of a name has the name as its parent
and the segment as its last one, equals what pushing the segment onto a copy of the name gives, and
is longer by one; a name has no parent exactly when it is simple, and otherwise is the child of its
parent by its last segment. From parent to parent, a simple name is reached after as many steps as
there are segments behind the first one, through all prefixes of the segments, and the last segments
met on the way are those of the name from back to front. -/
theorem path_up_and_down (before : List Step) :
    let m := empty.run before
    ∀ r q, m.view? r = some (.name q) →
      m.answer (.parts (.register r)) = .ok (.tuple q.segments) ∧
      m.answer (.length (.register r)) = .ok (.datum (.int q.length)) ∧
      (∀ n t u, t ≠ r → u ≠ r → u ≠ t →
        let m' := (m.step ⟨.child (.register r) (.ofSegment n), some t⟩).1
        (m'.step ⟨.parent (.register t), some u⟩).1.answer
          (.equal (.register u) (.register r)) = .ok (.datum (.bool true)) ∧
        m'.answer (.leaf (.register t)) = .ok (.segment n) ∧
        (m'.run [⟨.copy (.register r), some u⟩, .pushOnto u n]).answer
          (.equal (.register t) (.register u)) = .ok (.datum (.bool true)) ∧
        m'.answer (.length (.register t)) = .ok (.datum (.int (q.length + 1)))) ∧
      (m.answer (.parent (.register r)) = .ok (.datum .null) ↔
        m.answer (.isSimple (.register r)) = .ok (.datum (.bool true))) ∧
      (m.answer (.isSimple (.register r)) ≠ .ok (.datum (.bool true)) →
        ∀ t u v, t ≠ r → u ≠ r → v ≠ r → u ≠ t →
          (m.run [⟨.parent (.register r), some t⟩, ⟨.leaf (.register r), some u⟩,
            ⟨.child (.register t) (.register u), some v⟩]).answer
              (.equal (.register v) (.register r)) = .ok (.datum (.bool true))) ∧
      ∀ w,
        (∀ k < q.length,
          (m.run (climb r w k)).answer (.parts (.register w)) =
            .ok (.tuple (q.segments.take (q.length - k))) ∧
          (m.run (climb r w k)).answer (.isSimple (.register w)) =
            .ok (.datum (.bool (k == q.length - 1)))) ∧
        (∀ ss, ss ≠ [] → (ss <+: q.segments ↔ ∃ k < q.length,
          (m.run (climb r w k)).answer (.parts (.register w)) = .ok (.tuple ss))) ∧
        ((List.range q.length).map fun k =>
            (m.run (climb r w k)).answer (.leaf (.register w))).reverse =
          q.segments.map fun s => .ok (.segment s) := by
  intro m r q hq
  have hm : m.Sound := sound_run_empty before
  refine ⟨hm.answer_parts hq, hm.answer_length hq, fun n t u ht hu hut => ?_,
    hm.answer_parent_eq_null_iff hq, fun hsimple t u v ht hu hv hut => ?_, fun w => ?_⟩
  · obtain ⟨-, hchild⟩ := hm.shows_child (worth_of_view? hq) (m.worth_ofSegment n) t
    set m' := (m.step ⟨.child (.register r) (.ofSegment n), some t⟩).1
    have hr : m'.view? r = some (.name q) := (hchild.view?_of_ne ht.symm).trans hq
    have hparent := hchild.sound.shows_parent hchild.view?_eq (QualName.parent?_push q n) u
    obtain ⟨-, hpushed⟩ := (hchild.sound.shows_copy hr u).push n
    refine ⟨?_, ?_, ?_, ?_⟩
    · exact hparent.sound.answer_equal_of_view? hparent.view?_eq
        ((hparent.view?_of_ne hu.symm).trans hr)
    · rw [hchild.sound.answer_leaf hchild.view?_eq, QualName.leaf_push]
    · exact hpushed.sound.answer_equal_of_view?
        ((hpushed.view?_of_ne hut.symm).trans hchild.view?_eq) hpushed.view?_eq
    · rw [hchild.sound.answer_length hchild.view?_eq]
      simp [QualName.length]
  · rw [hm.answer_isSimple hq] at hsimple
    have hfalse : q.isSimple = false := by
      cases h : q.isSimple with
      | true => exact absurd (by rw [h]) hsimple
      | false => rfl
    obtain ⟨hagain, hkept⟩ := hm.view?_run_rejoin hq hfalse ht hu hv hut
    exact (hm.run _).answer_equal_of_view? hagain hkept
  · exact ⟨fun k hk => ⟨hm.answer_parts_climb hq hk, hm.answer_isSimple_climb hq hk⟩,
      fun ss hss => hm.prefix_iff_exists_climb hq hss, hm.reverse_map_leaf_climb hq⟩

theorem path_up_and_down_of_two_segments :
    ∃ a b : Segment,
      let m := empty.run [⟨.readName (.datum (.text ['a', '.', 'b'])), some ['x']⟩]
      let child : Step := ⟨.child (.register ['x']) (.ofSegment a), some ['t']⟩
      m.view? ['x'] = some (.name ((QualName.ofSegment a).push b)) ∧
      ((m.step child).1.run [⟨.copy (.register ['x']), some ['u']⟩, .pushOnto ['u'] a]).answer
        (.equal (.register ['t']) (.register ['u'])) = .ok (.datum (.bool true)) ∧
      m.answer (.isSimple (.register ['x'])) ≠ .ok (.datum (.bool true)) ∧
      (m.run [⟨.parent (.register ['x']), some ['t']⟩, ⟨.leaf (.register ['x']), some ['u']⟩,
        ⟨.child (.register ['t']) (.register ['u']), some ['v']⟩]).answer
          (.equal (.register ['v']) (.register ['x'])) = .ok (.datum (.bool true)) ∧
      (m.run (climb ['x'] ['w'] 1)).answer (.parts (.register ['w'])) = .ok (.tuple [a]) ∧
      (∃ k < 2, (m.run (climb ['x'] ['w'] k)).answer (.parts (.register ['w'])) =
        .ok (.tuple [a])) ∧
      ([0, 1].map fun k => (m.run (climb ['x'] ['w'] k)).answer (.leaf (.register ['w']))).reverse =
        [.ok (.segment a), .ok (.segment b)] := by
  let a : Segment := ⟨['a'], by decide +kernel⟩
  let b : Segment := ⟨['b'], by decide +kernel⟩
  have hq : (empty.run [⟨.readName (.datum (.text ['a', '.', 'b'])), some ['x']⟩]).view? ['x'] =
      some (.name ((QualName.ofSegment a).push b)) := rfl
  obtain ⟨-, -, hchild, -, hrejoin, hclimb⟩ := path_up_and_down _ ['x'] _ hq
  obtain ⟨hnames, hinit, hleaves⟩ := hclimb ['w']
  have hsimple : (empty.run [⟨.readName (.datum (.text ['a', '.', 'b'])), some ['x']⟩]).answer
      (.isSimple (.register ['x'])) ≠ .ok (.datum (.bool true)) := by
    rintro ⟨⟩
  exact ⟨a, b, hq, (hchild a ['t'] ['u'] (by decide) (by decide) (by decide)).2.2.1, hsimple,
    hrejoin hsimple ['t'] ['u'] ['v'] (by decide) (by decide) (by decide) (by decide),
    (hnames 1 (by decide)).1, (hinit [a] (by simp)).1 ⟨[b], rfl⟩, hleaves⟩

end Machine

end Script

end DottedNames
