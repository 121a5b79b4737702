import DottedNames.Proofs.Script.Construction
import DottedNames.Script.Loop

/-!
# Pushing while iterating

A loop over a name has as many rounds as the name has segments when the loop begins, whatever its
body does: in each round the iterator stands one part further on in a tuple, which nothing changes.
What the body pushes onto the name, through any register that holds it, is appended behind the
segments the loop goes through, in the order of the pushes. Pushing back every segment that is
yielded doubles the name.
-/

namespace DottedNames.Script

namespace Loop

variable {α : Type} {m : Machine} {q : QualName} {step : α → Step}
  {body : Loop α → Segment → List α} {l l' : Loop α} {n : Nat}

/-! ## Rounds -/

theorem after_succ (step : α → Step) (body : Loop α → Segment → List α) (n : Nat) (l : Loop α) :
    l.after step body (n + 1) = (l.after step body n).bind (round? step body) := by
  induction n generalizing l with
  | zero => cases hl : l.round? step body <;> simp [after, hl]
  | succ n ih =>
    rw [after, after, Option.bind_assoc]
    exact congrArg _ (funext ih)

/-- The loop has gone through the first `n` segments of the name. -/
structure Passed (m : Machine) (q : QualName) (step : α → Step) (body : Loop α → Segment → List α)
    (n : Nat) (l : Loop α) : Prop where
  iterator_eq : l.iterator = ⟨.tuple q.segments, n⟩
  yielded_eq : l.yielded = q.segments.take n
  machine_eq : l.machine = m.run (l.actions.map step)
  /-- What was done in each round was decided on by the body. -/
  exists_eq_body : ∀ round ∈ l.rounds, ∃ l', round.2 = body l' round.1

theorem Passed.next?_eq (h : Passed m q step body n l) :
    l.iterator.next? l.machine = q.segments[n]? := by
  rw [h.iterator_eq]
  rfl

theorem passed_start : Passed m q step body 0 (start m q) where
  iterator_eq := rfl
  yielded_eq := List.take_zero.symm
  machine_eq := rfl
  exists_eq_body := nofun

/-- In a round the next segment is yielded, however the name looks by then. -/
theorem Passed.round (h : Passed m q step body n l) (hn : n < q.length) :
    ∃ l', l.round? step body = some l' ∧ Passed m q step body (n + 1) l' := by
  obtain ⟨s, hs⟩ : ∃ s, q.segments[n]? = some s := ⟨_, List.getElem?_eq_getElem hn⟩
  have hnext : l.iterator.next? l.machine = some s := h.next?_eq.trans hs
  refine ⟨_, by rw [round?, hnext, Option.map_some], ?_, ?_, ?_, ?_⟩
  · rw [h.iterator_eq, Iterator.advance]
  · rw [yielded, List.map_append, List.take_add_one, ← h.yielded_eq, hs]
    rfl
  · rw [actions, List.flatMap_append, List.map_append, Machine.run_append, ← actions,
      ← h.machine_eq]
    simp
  · intro round hround
    rcases List.mem_append.1 hround with hround | hround
    · exact h.exists_eq_body round hround
    · rw [List.mem_singleton.1 hround]
      exact ⟨l, rfl⟩

theorem exists_passed (m : Machine) (step : α → Step) (body : Loop α → Segment → List α)
    (hn : n ≤ q.length) :
    ∃ l, (start m q).after step body n = some l ∧ Passed m q step body n l := by
  induction n with
  | zero => exact ⟨start m q, rfl, passed_start⟩
  | succ n ih =>
    obtain ⟨l, hl, hpassed⟩ := ih (by omega)
    obtain ⟨l', hl', hpassed'⟩ := hpassed.round (by omega)
    exact ⟨l', by rw [after_succ, hl, Option.bind_some, hl'], hpassed'⟩

/-- Behind the last segment the loop ends. -/
theorem Passed.round?_eq_none (h : Passed m q step body q.length l) :
    l.round? step body = none := by
  have hnone : q.segments[q.length]? = none := List.getElem?_eq_none le_rfl
  rw [round?, h.next?_eq, hnone, Option.map_none]

theorem Passed.yielded_eq_segments (h : Passed m q step body q.length l) :
    l.yielded = q.segments :=
  h.yielded_eq.trans (List.take_of_length_le le_rfl)

/-- A body that decides by the segment alone does the same for each segment that is yielded. -/
theorem Passed.actions_eq {f : Segment → List α} (h : Passed m q step (fun _ => f) n l) :
    l.actions = l.yielded.flatMap f := by
  rw [actions, yielded, List.flatMap_map]
  refine List.flatMap_congr fun round hround => ?_
  obtain ⟨l', hl'⟩ := h.exists_eq_body round hround
  exact hl'

theorem Passed.forall_mem_actions {P : α → Prop} (h : Passed m q step body n l)
    (hbody : ∀ l s, ∀ a ∈ body l s, P a) : ∀ a ∈ l.actions, P a := by
  intro a ha
  obtain ⟨round, hround, ha⟩ := List.mem_flatMap.1 ha
  obtain ⟨l', hl'⟩ := h.exists_eq_body round hround
  exact hbody l' round.1 a (hl' ▸ ha)

end Loop

/-- Push a segment through a register. -/
abbrev Step.ofPush (p : Text × Segment) : Step := .pushOnto p.1 p.2

/-- Push back every segment that iterating the name in a register yields. -/
abbrev Step.iteratePushingOnto (r : Text) : Step := ⟨.iteratePushing (.register r), none⟩

namespace Machine

variable {m : Machine} {r : Text} {h : Handle} {q : QualName} {ss : List Segment}
  {pushes : List (Text × Segment)} {us : List Text}

/-! ## Pushes -/

theorem Sound.get?_pushingAll (hm : m.Sound) (hq : m.store.get? h = some q) :
    (m.pushingAll h ss).store.get? h = some (q.extend ss) := by
  rw [hm.grows_pushingAll.get?_eq hq, onto, if_pos rfl]

theorem Sound.view?_pushingAll (hm : m.Sound) (hr : m.lookup? r = some (.name h))
    (hq : m.store.get? h = some q) :
    (m.pushingAll h ss).view? r = some (.name (q.extend ss)) :=
  view?_of_lookup? ((hm.grows_pushingAll.lookup?_eq r).trans hr)
    (operand?_name.2 ⟨_, hm.get?_pushingAll hq, rfl⟩)

theorem run_eval_ofSegment (m : Machine) (s : Segment) :
    (Action.eval (.ofSegment s)).run m = .ok (.segment s) m := by
  have hparse : Segment.parse s.text = .ok s := by simp [Segment.parse]
  show (ofExcept ((Segment.parse s.text).mapError _) >>= _ : Action Value).run m = _
  rw [hparse]
  rfl

theorem run_eval_name (hr : m.lookup? r = some (.name h)) :
    (Action.eval (.register r)).run m = .ok (.name h) m := by
  rw [Action.run_eval_register, hr]

theorem step_pushOnto (hr : m.lookup? r = some (.name h)) (s : Segment) :
    (m.step (.pushOnto r s)).1 = m.pushing h s := by
  have hrun : (Action.perform (Step.pushOnto r s).operation.form).run m =
      .ok Action.nothing (m.pushing h s) :=
    (Action.run_bind_ok (run_eval_ofSegment m s)).trans (Action.run_bind_ok (run_eval_name hr))
  rw [step_of_perform hrun]
  rfl

theorem run_pushes (hp : ∀ p ∈ pushes, m.lookup? p.1 = some (.name h)) :
    m.run (pushes.map Step.ofPush) = m.pushingAll h (pushes.map Prod.snd) := by
  induction pushes generalizing m with
  | nil => rfl
  | cons p pushes ih =>
    rw [List.map_cons, run_cons, step_pushOnto (hp p List.mem_cons_self)]
    exact ih fun p' hp' => hp p' (List.mem_cons_of_mem p hp')

/-- The segments that are pushed back are those that the name had before the first push. -/
theorem step_iteratePushingOnto (hr : m.lookup? r = some (.name h))
    (hq : m.store.get? h = some q) :
    (m.step (.iteratePushingOnto r)).1 = m.pushingAll h q.segments := by
  have hoperand : m.operand (.name h) = .name q := operand_eq (operand?_name.2 ⟨q, hq, rfl⟩)
  have hrun : (Action.perform (Step.iteratePushingOnto r).operation.form).run m =
      .ok Action.nothing (m.pushingAll h q.segments) := by
    refine (Action.run_bind_ok (run_eval_name hr)).trans ?_
    refine (Action.run_bind_ok (a := get) rfl).trans ?_
    rw [hoperand]
    exact (Action.run_bind_ok (a := ofExcept (Operand.name q).iterate) rfl).trans
      (Action.run_bind_ok (Action.run_forM_pushOnto m h q.segments))
  rw [step_of_perform hrun]
  rfl

/-- Pushing back what going through a name yields, time after time, doubles the name each time. -/
theorem Sound.exists_get?_run_iteratePushing (hm : m.Sound)
    (hus : ∀ u ∈ us, m.lookup? u = some (.name h)) (hq : m.store.get? h = some q) :
    ∃ p : QualName, (m.run (us.map Step.iteratePushingOnto)).store.get? h = some p ∧
      p.length = q.length * 2 ^ us.length := by
  induction us generalizing m q with
  | nil => exact ⟨q, hq, (Nat.mul_one _).symm⟩
  | cons u us ih =>
    have hlookup : ∀ u' ∈ us, (m.pushingAll h q.segments).lookup? u' = some (.name h) :=
      fun u' hu' =>
        (hm.grows_pushingAll.lookup?_eq u').trans (hus u' (List.mem_cons_of_mem u hu'))
    obtain ⟨p, hp, hlength⟩ := ih hm.pushingAll hlookup (hm.get?_pushingAll hq)
    rw [List.map_cons, run_cons, step_iteratePushingOnto (hus u List.mem_cons_self) hq]
    refine ⟨p, hp, ?_⟩
    rw [hlength, QualName.length, QualName.extend, List.length_append, List.length_cons,
      Nat.pow_succ', ← Nat.mul_assoc, Nat.mul_two, QualName.length]

/-- Going through a name yields the segments that it has at the beginning and then ends, whatever is
done in between. What is pushed onto the name in the rounds, through any register that holds it, is
appended in order. Pushing back each segment that is yielded is what `iteratePushing` does; it
appends the segments once more, and doubles the length each time it is done again. -/
theorem iteration_yields_snapshot (before : List Step) :
    let m := empty.run before
    ∀ r h q, m.lookup? r = some (.name h) → m.view? r = some (.name q) →
      (∀ (α : Type) (step : α → Step) (body : Loop α → Segment → List α), ∃ l,
        (Loop.start m q).after step body q.length = some l ∧ l.round? step body = none ∧
        l.yielded = q.segments ∧ l.machine = m.run (l.actions.map step)) ∧
      (∀ body : Loop (Text × Segment) → Segment → List (Text × Segment),
        (∀ l s, ∀ p ∈ body l s, m.lookup? p.1 = some (.name h)) → ∃ l,
          (Loop.start m q).after Step.ofPush body q.length = some l ∧
          l.round? Step.ofPush body = none ∧ l.yielded = q.segments ∧
          ∀ u, m.lookup? u = some (.name h) →
            l.machine.view? u = some (.name (q.extend (l.actions.map Prod.snd)))) ∧
      (∃ l, (Loop.start m q).after Step.ofPush (fun _ s => [(r, s)]) q.length = some l ∧
        l.machine = (m.step (.iteratePushingOnto r)).1) ∧
      (m.step (.iteratePushingOnto r)).1.answer (.parts (.register r)) =
        .ok (.tuple (q.segments ++ q.segments)) ∧
      ∀ us : List Text, (∀ u ∈ us, m.lookup? u = some (.name h)) →
        (m.run (us.map Step.iteratePushingOnto)).answer (.length (.register r)) =
          .ok (.datum (.int (q.length * 2 ^ us.length : Nat))) := by
  intro m r h q hr hview
  have hm : m.Sound := sound_run_empty before
  have hq : m.store.get? h = some q := by
    obtain ⟨k, hk, hget⟩ := hm.exists_handle_of_view? hview
    rw [hr] at hk
    cases hk
    exact hget
  have hagain := step_iteratePushingOnto hr hq
  refine ⟨fun α step body => ?_, fun body hbody => ?_, ?_, ?_, fun us hus => ?_⟩
  · obtain ⟨l, hl, hpassed⟩ := Loop.exists_passed m step body le_rfl
    exact ⟨l, hl, hpassed.round?_eq_none, hpassed.yielded_eq_segments, hpassed.machine_eq⟩
  · obtain ⟨l, hl, hpassed⟩ := Loop.exists_passed m Step.ofPush body le_rfl
    refine ⟨l, hl, hpassed.round?_eq_none, hpassed.yielded_eq_segments, fun u hu => ?_⟩
    rw [hpassed.machine_eq, run_pushes (hpassed.forall_mem_actions hbody)]
    exact hm.view?_pushingAll hu hq
  · obtain ⟨l, hl, hpassed⟩ := Loop.exists_passed m Step.ofPush (fun _ s => [(r, s)]) le_rfl
    have hactions : l.actions.map Prod.snd = q.segments := by
      rw [hpassed.actions_eq, hpassed.yielded_eq_segments, List.map_flatMap]
      exact List.flatMap_singleton' q.segments
    refine ⟨l, hl, ?_⟩
    rw [hpassed.machine_eq, run_pushes, hactions, hagain]
    exact hpassed.forall_mem_actions fun _ s p hp => List.mem_singleton.1 hp ▸ hr
  · rw [(hm.step _).answer_parts (hagain ▸ hm.view?_pushingAll hr hq)]
    rfl
  · obtain ⟨p, hp, hlength⟩ := hm.exists_get?_run_iteratePushing hus hq
    have hkept : (m.run (us.map Step.iteratePushingOnto)).lookup? r = some (.name h) :=
      (hm.lookup?_run_of_forall_ne (by simp)).trans hr
    rw [(hm.run _).answer_length (view?_of_lookup? hkept (operand?_name.2 ⟨p, hp, rfl⟩)), hlength]

/-- A name that two registers hold is gone through while each segment is pushed back through the
second register, and the first segment behind it through the first one. -/
theorem iteration_yields_snapshot_of_shared :
    ∃ a b : Segment,
      let m := empty.run [⟨.readName (.datum (.text ['a', '.', 'b'])), some ['x']⟩,
        ⟨.value (.register ['x']), some ['y']⟩]
      let q := (QualName.ofSegment a).push b
      m.lookup? ['x'] = some (.name ⟨0⟩) ∧ m.lookup? ['y'] = some (.name ⟨0⟩) ∧
      m.view? ['x'] = some (.name q) ∧
      (∃ l : Loop (Text × Segment),
        (Loop.start m q).after Step.ofPush (fun _ s => [(['y'], s), (['x'], a)]) 2 = some l ∧
        l.yielded = [a, b] ∧ l.machine.view? ['x'] = some (.name (q.extend [a, a, b, a]))) ∧
      (m.run [.iteratePushingOnto ['x'], .iteratePushingOnto ['y']]).answer
        (.length (.register ['x'])) = .ok (.datum (.int 8)) := by
  let a : Segment := ⟨['a'], by decide +kernel⟩
  let b : Segment := ⟨['b'], by decide +kernel⟩
  let sharing : List Step := [⟨.readName (.datum (.text ['a', '.', 'b'])), some ['x']⟩,
    ⟨.value (.register ['x']), some ['y']⟩]
  have hx : (empty.run sharing).lookup? ['x'] = some (.name ⟨0⟩) := rfl
  have hy : (empty.run sharing).lookup? ['y'] = some (.name ⟨0⟩) := rfl
  have hq : (empty.run sharing).view? ['x'] = some (.name ((QualName.ofSegment a).push b)) := rfl
  obtain ⟨-, hpushing, -, -, hlength⟩ := iteration_yields_snapshot sharing ['x'] ⟨0⟩ _ hx hq
  obtain ⟨l, hl, -, hyielded, hviews⟩ := hpushing (fun _ s => [(['y'], s), (['x'], a)]) (by
    intro _ s p hp
    rcases List.mem_cons.1 hp with rfl | hp
    · exact hy
    · rw [List.mem_singleton.1 hp]
      exact hx)
  have hactions : l.actions.map Prod.snd = [a, a, b, a] := by
    obtain ⟨l', hl', hpassed⟩ := Loop.exists_passed (empty.run sharing) Step.ofPush
      (fun _ s => [(['y'], s), (['x'], a)]) le_rfl
    cases hl'.symm.trans hl
    rw [hpassed.actions_eq, hyielded]
    rfl
  refine ⟨a, b, hx, hy, hq, ⟨l, hl, hyielded, ?_⟩, hlength [['x'], ['y']] ?_⟩
  · rw [hviews ['x'] hx, hactions]
  · simpa using ⟨hx, hy⟩

end Machine

end DottedNames.Script
