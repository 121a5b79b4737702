import DottedNames.Proofs.Script.Run

/-!
# Aliases and copies

Registers that hold one handle are aliases. What is pushed through one of them is seen through all
of them, and nothing else is ever seen to change: not through a register that holds another name,
and not through one that holds segments taken from the name before. A name that a step makes is
behind a handle of its own, so neither it nor the name it was made from sees what is pushed onto the
other.
-/

namespace DottedNames.Script

/-- The operation pushes onto the name that a register holds. -/
def Operation.PushesVia (op : Operation) (r : Text) : Prop :=
  op = .iteratePushing (.register r) ∨ ∃ arg, op = .push (.register r) arg

theorem Operation.not_pushesVia {op : Operation} {r : Text} (hpush : ∀ on arg, op ≠ .push on arg)
    (hiterate : ∀ on, op ≠ .iteratePushing on) : ¬ op.PushesVia r := by
  rintro (h | ⟨arg, h⟩)
  · exact hiterate _ h
  · exact hpush _ _ h

namespace Machine

variable {m : Machine} {r u : Text} {h k : Handle} {q : QualName} {s : Step} {op : Operation}
  {ss : List Segment} {v w : Value} {x : Operand} {t : Option Text} {steps : List Step}

/-- The operation pushes the segments `ss` through a register that shows the name `q`. -/
inductive PushesThrough (m : Machine) (r : Text) (q : QualName) :
    Operation → List Segment → Prop where
  /-- A single segment is pushed. -/
  | push {arg s} (harg : m.worth arg = .ok (.segment s)) :
      PushesThrough m r q (.push (.register r) arg) [s]
  /-- The segments that the name has when it is gone through are pushed. -/
  | iteratePushing : PushesThrough m r q (.iteratePushing (.register r)) q.segments

/-- However a script goes on, a push through a register that holds the one handle is not seen
through a register that holds the other. -/
def Apart (m : Machine) (h k : Handle) : Prop :=
  ∀ after s r u, (m.run after).lookup? r = some (.name h) →
    (m.run after).lookup? u = some (.name k) → s.operation.PushesVia r → s.target ≠ some u →
    ((m.run after).step s).1.view? u = (m.run after).view? u

/-! ## Pushes -/

theorem PushesThrough.pushedBy_eq (hpush : m.PushesThrough r q op ss)
    (hr : m.lookup? r = some (.name h)) (hq : m.store.get? h = some q) :
    m.pushedBy op.form = onto h ss := by
  have hhandle : m.handle? (.register r) = some h := handle?_register.2 hr
  cases hpush with
  | push harg => simp only [Operation.form, pushedBy, harg, through, hhandle, hq, segmentsOf]
  | iteratePushing =>
    show m.through (.register r) QualName.segments = _
    simp only [through, hhandle, hq]

theorem PushesThrough.meaning_eq (hpush : m.PushesThrough r q op ss)
    (hq : m.view? r = some (.name q)) : m.meaning op.form = .ok (.datum .null) := by
  cases hpush with
  | push harg =>
    show (m.worth _ >>= fun a => m.worth (.register r) >>= _) = _
    rw [harg, worth_of_view? hq]
    rfl
  | iteratePushing => exact meaning_iteratePushing (worth_of_view? hq)

theorem through_eq_nil {e : Expr} {f : QualName → List Segment} (he : m.handle? e ≠ some h) :
    m.through e f h = [] := by
  cases hk : m.handle? e with
  | none => simp only [through, hk, unpushed]
  | some k =>
    have hkh : h ≠ k := fun hkh => he (hkh ▸ hk)
    cases hq : m.store.get? k with
    | none => simp only [through, hk, hq, unpushed]
    | some q => simp only [through, hk, hq, onto, if_neg hkh]

/-- Only an operation that pushes via a register pushes, and it pushes onto what the register
holds. -/
theorem exists_pushesVia_of_pushedBy (hpush : m.pushedBy op.form h ≠ []) :
    ∃ r, m.lookup? r = some (.name h) ∧ op.PushesVia r := by
  cases op with
  | push on arg =>
    have hon : m.handle? on = some h := by
      by_contra hon
      cases ha : m.worth arg with
      | error f => simp [Operation.form, pushedBy, ha, unpushed] at hpush
      | ok a => simp [Operation.form, pushedBy, ha, through_eq_nil hon] at hpush
    obtain ⟨r, rfl, hr⟩ := exists_register_of_handle? hon
    exact ⟨r, hr, .inr ⟨arg, rfl⟩⟩
  | iteratePushing on =>
    have hon : m.handle? on = some h := by
      by_contra hon
      exact hpush (through_eq_nil hon)
    obtain ⟨r, rfl, hr⟩ := exists_register_of_handle? hon
    exact ⟨r, hr, .inl rfl⟩
  | _ => exact absurd rfl hpush

/-- A view changes only by a push via a register that holds the same handle. -/
theorem Sound.exists_pushesVia_of_view?_ne (hm : m.Sound) (ht : s.target ≠ some u)
    (hne : (m.step s).1.view? u ≠ m.view? u) :
    ∃ r h, m.lookup? r = some (.name h) ∧ m.lookup? u = some (.name h) ∧
      s.operation.PushesVia r := by
  by_contra hnone
  refine hne (hm.view?_step_of_unpushed ht fun h hu => ?_)
  by_contra hpush
  obtain ⟨r, hr, hvia⟩ := exists_pushesVia_of_pushedBy hpush
  exact hnone ⟨r, h, hr, hu, hvia⟩

theorem Sound.apart (hm : m.Sound) (hne : h ≠ k) : m.Apart h k := by
  intro after s r u hr hu hvia ht
  by_contra hview
  obtain ⟨r', h', hr', hu', hvia'⟩ := (hm.run after).exists_pushesVia_of_view?_ne ht hview
  -- The operation names one register, so it is the handle in there that the view belongs to.
  have hrr : r' = r := by
    rcases hvia with hop | ⟨arg, hop⟩ <;> rcases hvia' with hop' | ⟨arg', hop'⟩ <;>
      rw [hop] at hop' <;> cases hop' <;> rfl
  subst hrr
  rw [hr] at hr'
  cases hr'
  rw [hu] at hu'
  cases hu'
  exact hne rfl

/-! ## New names -/

/-- Unless an operation just hands over a value, a name it results in is a new one. -/
theorem Sound.get?_result (hm : m.Sound) (hvalue : ∀ e, s.operation ≠ .value e)
    (hresult : (m.step s).2 = .ok (.name h)) : m.store.get? h = none := by
  have hform : ∀ e, s.operation.form ≠ .value e := by
    intro e he
    cases hop : s.operation with
    | value e' => exact hvalue e' hop
    | _ =>
      rw [hop] at he
      cases he
  rcases hm.step_cases s with ⟨m', v, x, hstep, -, -, hv, -⟩ | ⟨m', f, hstep, -, -, -⟩
  · rw [hstep] at hresult
    cases hresult
    exact hv.fresh hform h rfl
  · rw [hstep] at hresult
    cases hresult

/-! ## Results that are no names -/

theorem eq_of_operand? (hv : m.operand? v = some x) (hw : m.operand? w = some x)
    (hx : ∀ q, x ≠ .name q) : v = w := by
  have hne : ∀ {v : Value}, m.operand? v = some x → ∀ h, v ≠ .name h := by
    rintro _ hv h rfl
    obtain ⟨q, -, rfl⟩ := operand?_name.1 hv
    exact hx q rfl
  cases v with
  | name h => exact absurd rfl (hne hv h)
  | _ =>
    cases w with
    | name h => exact absurd rfl (hne hw h)
    | _ =>
      cases hv
      cases hw <;> rfl

theorem Sound.result_eq (hm : m.Sound) (hx : m.meaning s.operation.form = .ok x)
    (hv : ∀ m : Machine, m.operand? v = some x) (hne : ∀ q, x ≠ .name q) :
    (m.step s).2 = .ok v := by
  obtain ⟨w, hw, hworth, -⟩ := hm.exists_result hx
  rw [hw, eq_of_operand? hworth (hv _) hne]

/-- A push via a register appends to what is seen through the registers that hold the same handle,
and to nothing else. -/
theorem Sound.view?_pushesThrough (hm : m.Sound) (hr : m.lookup? r = some (.name h))
    (hq : m.view? r = some (.name q)) (hpush : m.PushesThrough r q s.operation ss)
    (ht : s.target ≠ some u) :
    (m.lookup? u = some (.name h) → (m.step s).1.view? u = some (.name (q.extend ss))) ∧
    (m.lookup? u ≠ some (.name h) → (m.step s).1.view? u = m.view? u) := by
  have hget : m.store.get? h = some q := by
    obtain ⟨k, hk, hget⟩ := hm.exists_handle_of_view? hq
    rw [hr] at hk
    cases hk
    exact hget
  have hpushed : m.pushedBy s.operation.form = onto h ss := hpush.pushedBy_eq hr hget
  constructor
  · intro hu
    rw [hm.view?_step_name ht hu hget]
    simp [hpushed, onto]
  · intro hu
    refine hm.view?_step_of_unpushed ht fun k hk => ?_
    have hkh : k ≠ h := by
      rintro rfl
      exact hu hk
    rw [hpushed]
    exact if_neg hkh

/-- In every state that a script leads to, what is pushed through a register is appended to the
segments seen through the registers that hold the same name, and whatever step changes what is seen
through a register is such a push; a whole script appends to a name what its steps push onto this
name. A name that a step makes is none of the names that there were, and will never share a push
with any of them. Segments of a name that were taken as a tuple or as a list stay what they are. -/
theorem pushes_seen_by_aliases (before : List Step) :
    let m := empty.run before
    (∀ r h q op ss t, m.lookup? r = some (.name h) → m.view? r = some (.name q) →
      m.PushesThrough r q op ss →
        (m.step ⟨op, t⟩).2 = .ok Action.nothing ∧
        ∀ u, t ≠ some u → (m.step ⟨op, t⟩).1.lookup? u = m.lookup? u ∧
          (m.lookup? u = some (.name h) →
            (m.step ⟨op, t⟩).1.view? u = some (.name (q.extend ss))) ∧
          (m.lookup? u ≠ some (.name h) → (m.step ⟨op, t⟩).1.view? u = m.view? u)) ∧
    (∀ s u, s.target ≠ some u → (m.step s).1.view? u ≠ m.view? u →
      ∃ r h, m.lookup? r = some (.name h) ∧ m.lookup? u = some (.name h) ∧
        s.operation.PushesVia r) ∧
    (∀ h q after, m.store.get? h = some q →
      (m.run after).store.get? h = some (q.extend (m.pushedOnto h after))) ∧
    (∀ s h, (∀ e, s.operation ≠ .value e) → (m.step s).2 = .ok (.name h) →
      ∀ k p, m.store.get? k = some p →
        h ≠ k ∧ (m.step s).1.Apart h k ∧ (m.step s).1.Apart k h) ∧
    (∀ on q t, m.worth on = .ok (.name q) →
      (m.step ⟨.parts on, t⟩).2 = .ok (.tuple q.segments) ∧
      (m.step ⟨.iterate on, t⟩).2 = .ok (.segments q.segments)) ∧
    (∀ r ss after, (∀ s ∈ after, s.target ≠ some r) →
      (m.lookup? r = some (.tuple ss) → (m.run after).view? r = some (.tuple ss)) ∧
      (m.lookup? r = some (.segments ss) → (m.run after).view? r = some (.segments ss))) := by
  intro m
  have hm : m.Sound := sound_run_empty before
  refine ⟨?_, ?_, fun h q after hq => hm.get?_run after hq, ?_, ?_, ?_⟩
  · intro r h q op ss t hr hq hpush
    refine ⟨hm.result_eq (hpush.meaning_eq hq) (fun _ => rfl) (by simp), fun u ht => ?_⟩
    exact ⟨hm.lookup?_step_of_ne ht, hm.view?_pushesThrough hr hq hpush ht⟩
  · intro s u ht hne
    exact hm.exists_pushesVia_of_view?_ne ht hne
  · intro s h hvalue hresult k p hp
    have hne : h ≠ k := by
      rintro rfl
      rw [hm.get?_result hvalue hresult] at hp
      cases hp
    exact ⟨hne, (hm.step s).apart hne, (hm.step s).apart hne.symm⟩
  · intro on q t hq
    have hview : ∀ f : Operand → Except Fault Operand,
        m.meaning (.view on f) = f (.name q) := by
      intro f
      rw [meaning, hq]
      rfl
    exact ⟨hm.result_eq (hview _) (fun _ => rfl) (by simp),
      hm.result_eq (hview _) (fun _ => rfl) (by simp [Operand.ofItems])⟩
  · intro r ss after hafter
    have hkept : (m.run after).lookup? r = m.lookup? r := hm.lookup?_run_of_forall_ne hafter
    exact ⟨fun hr => view?_of_lookup? (hkept.trans hr) rfl,
      fun hr => view?_of_lookup? (hkept.trans hr) rfl⟩

/-- Two registers for one name, a third one for a copy of it and a fourth one for its segments. -/
def aliases : List Step := [
  ⟨.readName (.datum (.text ['a'])), some ['x']⟩,
  ⟨.value (.register ['x']), some ['y']⟩,
  ⟨.copy (.register ['x']), some ['z']⟩,
  ⟨.parts (.register ['x']), some ['p']⟩]

theorem pushes_seen_by_aliases_of_copied :
    ∃ a b : Segment,
      let m := empty.run aliases
      let extending : Step := ⟨.push (.register ['x']) (.segment (.text ['b'])), none⟩
      let child : Step := ⟨.child (.register ['y']) (.segment (.text ['b'])), none⟩
      (m.step extending).1.view? ['y'] = some (.name ((QualName.ofSegment a).extend [b])) ∧
      (m.step extending).1.view? ['z'] = some (.name (.ofSegment a)) ∧
      (m.step extending).1.view? ['p'] = some (.tuple [a]) ∧
      (∃ r h, m.lookup? r = some (.name h) ∧ m.lookup? ['y'] = some (.name h) ∧
        extending.operation.PushesVia r) ∧
      (m.run [extending]).store.get? ⟨0⟩ = some ((QualName.ofSegment a).extend [b]) ∧
      (m.step child).1.Apart ⟨2⟩ ⟨0⟩ ∧
      (m.step ⟨.parts (.register ['y']), none⟩).2 = .ok (.tuple [a]) := by
  let a : Segment := ⟨['a'], by decide +kernel⟩
  let b : Segment := ⟨['b'], by decide +kernel⟩
  let extending : Step := ⟨.push (.register ['x']) (.segment (.text ['b'])), none⟩
  let child : Step := ⟨.child (.register ['y']) (.segment (.text ['b'])), none⟩
  obtain ⟨hpush, honly, hgrown, hnew, htaken, hkept⟩ := pushes_seen_by_aliases aliases
  have hx : (empty.run aliases).lookup? ['x'] = some (.name ⟨0⟩) := rfl
  have hq : (empty.run aliases).view? ['x'] = some (.name (.ofSegment a)) := rfl
  have hb : (empty.run aliases).PushesThrough ['x'] (.ofSegment a) extending.operation [b] :=
    .push rfl
  have hviews := (hpush ['x'] ⟨0⟩ (.ofSegment a) _ [b] none hx hq hb).2
  have hy := (hviews ['y'] nofun).2.1 rfl
  have hz := (hviews ['z'] nofun).2.2 nofun
  have hp := (hkept ['p'] [a] [extending] (by simp [extending])).1 rfl
  have hchanged : ((empty.run aliases).step extending).1.view? ['y'] ≠
      (empty.run aliases).view? ['y'] := by
    intro hsame
    have hsegments := hy.symm.trans hsame
    cases hsegments
  exact ⟨a, b, hy, hz, hp, honly extending ['y'] nofun hchanged,
    hgrown ⟨0⟩ (.ofSegment a) [extending] rfl,
    (hnew child ⟨2⟩ nofun rfl ⟨0⟩ (.ofSegment a) rfl).2.1,
    (htaken (.register ['y']) (.ofSegment a) none rfl).1⟩

end Machine

end DottedNames.Script
