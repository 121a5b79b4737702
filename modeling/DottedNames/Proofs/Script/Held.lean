import DottedNames.Proofs.QualName.Reading
import DottedNames.Proofs.Script.Run

/-!
# Names in registers

Whatever a script does, a name that a register holds afterwards has segments, and each of them is
matched in full by the pattern of names. The operations that look at a name can therefore rely on
its last segment and on its written form: they are never refused, and reading the written form gives
an equal name.
-/

namespace DottedNames

theorem Segment.isSome_fullMatchSpan?_text (s : Segment) :
    (Grammar.name.fullMatchSpan? s.text 0 s.text.length).isSome = true :=
  isSome_fullMatchSpan?_name_iff.2 (Grammar.spells_iff_mem_names.1 s.spells_text)

theorem Operand.same_name_self (q : QualName) : (Operand.name q).same (.name q) = true := by
  simp [Operand.same, Designator.same]

namespace Script.Machine

variable {m : Machine} {r t u : Text} {q : QualName}

/-- The written form of what a register holds is put into one register and read from it into another
one. -/
def reread (r t u : Text) : List Step :=
  [⟨.text (.register r), some t⟩, ⟨.readName (.register t), some u⟩]

/-- Reading the written form of a name back gives the name again. -/
theorem Sound.view?_run_reread (hm : m.Sound) (hq : m.view? r = some (.name q)) (ht : t ≠ r)
    (hu : u ≠ r) :
    (m.run (reread r t u)).view? r = some (.name q) ∧
      (m.run (reread r t u)).view? u = some (.name q) := by
  let writing : Step := ⟨.text (.register r), some t⟩
  let reading : Step := ⟨.readName (.register t), some u⟩
  have hm₁ : (m.step writing).1.Sound := hm.step writing
  have hname : ∀ {v}, v ≠ r → some v ≠ some r := fun hv h => hv (Option.some.inj h)
  have htext : (m.step writing).1.view? t = some (.datum (.text q.text)) := by
    refine hm.view?_step_target ?_ rfl
    rw [← hm.answer_eq]
    exact hm.answer_view hq rfl rfl
  have hagain : ((m.step writing).1.step reading).1.view? u = some (.name q) := by
    refine hm₁.view?_step_target ?_ rfl
    rw [← hm₁.answer_eq]
    refine hm₁.answer_view htext rfl ?_
    rw [Operand.readName_eq_ok_iff_eq_text.2 rfl]
    rfl
  -- Neither step touches the name itself.
  have hkept : ((m.step writing).1.step reading).1.view? r = some (.name q) := by
    rw [hm₁.view?_step_of_unpushed (hname hu) fun _ _ => rfl,
      hm.view?_step_of_unpushed (hname ht) fun _ _ => rfl, hq]
  exact ⟨hkept, hagain⟩

/-- A name that a register holds has segments, whatever was done before, and each of them is one by
the pattern of names. Its last segment, its written form, its description and what going through it
yields are always there, and reading the written form gives an equal name. -/
theorem held_name_isWhole (steps : List Step) {r : Text} {h : Handle}
    (hr : (empty.run steps).lookup? r = some (.name h)) :
    let m := empty.run steps
    ∃ q : QualName, m.store.segments? h = some q.segments ∧ q.segments ≠ [] ∧
      (∀ s ∈ q.segments, (Grammar.name.fullMatchSpan? s.text 0 s.text.length).isSome = true) ∧
      (∃ s, q.segments.getLast? = some s ∧ m.answer (.leaf (.register r)) = .ok (.segment s)) ∧
      m.answer (.text (.register r)) =
        .ok (.datum (.text (Text.join ['.'] (q.segments.map Segment.text)))) ∧
      m.answer (.describe (.register r)) = .ok (.datum q.describe) ∧
      m.answer (.iterate (.register r)) = .ok (.segments q.segments) ∧
      ∀ t u, t ≠ r → u ≠ r →
        (m.run (reread r t u)).answer (.equal (.register r) (.register u)) =
          .ok (.datum (.bool true)) := by
  intro m
  have hm : m.Sound := sound_run_empty steps
  obtain ⟨x, hx⟩ := hm.held hr
  obtain ⟨q, hq, rfl⟩ := operand?_name.1 hx
  have hview : m.view? r = some (.name q) := view?_of_lookup? hr hx
  have hequal : ∀ t u, t ≠ r → u ≠ r →
      (m.run (reread r t u)).answer (.equal (.register r) (.register u)) =
        .ok (.datum (.bool true)) := by
    intro t u ht hu
    obtain ⟨hkept, hagain⟩ := hm.view?_run_reread hview ht hu
    rw [(hm.run _).answer_equal hkept hagain, Operand.same_name_self]
  exact ⟨q, Store.get?_eq_some_iff.1 hq, q.segments_ne_nil, fun s _ => s.isSome_fullMatchSpan?_text,
    ⟨q.leaf, List.getLast?_eq_some_getLast q.segments_ne_nil, hm.answer_view hview rfl rfl⟩,
    hm.answer_view hview rfl rfl, hm.answer_view hview rfl rfl, hm.answer_view hview rfl rfl,
    hequal⟩

/-- A script with two registers for one name, pushes through both and refused steps in between. -/
def sharing : List Step := [
  ⟨.ofSegment (.segment (.text ['a'])), some ['x']⟩,
  ⟨.value (.register ['x']), some ['y']⟩,
  ⟨.push (.register ['y']) (.datum .null), none⟩,
  ⟨.push (.register ['y']) (.segment (.text ['b'])), none⟩,
  ⟨.ofSegments [], some ['x']⟩,
  ⟨.iteratePushing (.register ['x']), none⟩,
  ⟨.parent (.register ['y']), some ['y']⟩]

theorem held_name_isWhole_sharing :
    (empty.run sharing).lookup? ['y'] = some (.name ⟨1⟩) ∧
      ∃ q : QualName,
        (empty.run sharing).store.segments? ⟨1⟩ = some q.segments ∧ q.segments ≠ [] := by
  have hy : (empty.run sharing).lookup? ['y'] = some (.name ⟨1⟩) := by rfl
  obtain ⟨q, hq, hne, -⟩ := held_name_isWhole sharing hy
  exact ⟨hy, q, hq, hne⟩

end Script.Machine

end DottedNames
