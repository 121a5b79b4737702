import DottedNames.Proofs.Log.Session
import Mathlib.Data.List.Induction

/-!
# What is accepted

Nothing is written but for records that the library's sink accepts. Whether the sink is there is a
matter of history: it is there if a sink was installed and the hub was not emptied since
(`Session.Audible`). A step installs a sink if it is the first one that needs it, or if it sets
another mode than the one in force (`Session.Consistent.installs_iff`). So emptying the hub behind
the library's back silences it until the mode changes, once it has installed a sink; before that,
emptying the hub has no effect on what is accepted.

Which line an accepted record leaves in the error stream is another matter (`Written.line`).
-/

namespace DottedNames

theorem exists_split_concat_iff {α : Type} {xs : List α} {x : α}
    {P : List α → α → List α → Prop} :
    (∃ before y after, xs ++ [x] = before ++ y :: after ∧ P before y after) ↔
      P xs x [] ∨ ∃ before y after, xs = before ++ y :: after ∧ P before y (after ++ [x]) := by
  constructor
  · rintro ⟨before, y, after, heq, h⟩
    rcases List.eq_nil_or_concat after with rfl | ⟨after, z, rfl⟩
    · obtain ⟨rfl, hy⟩ := List.append_inj' heq rfl
      cases hy
      exact .inl h
    · rw [List.concat_eq_append] at heq h
      rw [← List.cons_append, ← List.append_assoc] at heq
      obtain ⟨rfl, hz⟩ := List.append_inj' heq rfl
      cases hz
      exact .inr ⟨before, y, after, rfl, h⟩
  · rintro (h | ⟨before, y, after, rfl, h⟩)
    · exact ⟨xs, x, [], rfl, h⟩
    · exact ⟨before, y, after ++ [x], by simp, h⟩

namespace Session

variable {s : Session} {t : Step} {m : LogMode} {environment : Option Text}
  {steps later : List Step}

/-! ## Installing and emptying -/

/-- After the step there is a sink that was not there before. -/
def Installs (s : Session) (t : Step) : Prop := ∃ k ∈ (s.step t).1.hub.sinks, k ∉ s.hub.sinks

/-- One of the steps installed a sink. -/
def EverInstalled (environment : Option Text) (steps : List Step) : Prop :=
  ∃ before t after, steps = before ++ t :: after ∧ ((initial environment).run before).Installs t

/-- One of the steps installed a sink, and no later one emptied the hub. -/
def Audible (environment : Option Text) (steps : List Step) : Prop :=
  ∃ before t after, steps = before ++ t :: after ∧
    ((initial environment).run before).Installs t ∧ Step.removeAll ∉ after

theorem not_installs_of_subset (h : (s.step t).1.hub.sinks ⊆ s.hub.sinks) : ¬ s.Installs t := by
  rintro ⟨k, hk, hnew⟩
  exact hnew (h hk)

/-- Setting a mode puts a new sink into the hub, unless the mode is in force already. -/
theorem Consistent.sinks_install (hs : s.Consistent) (h : s.sink.isSome = true → m ≠ s.mode) :
    ∃ k ∈ (s.install m).hub.sinks, k ∉ s.hub.sinks := by
  rw [hs.install_of_ne h]
  refine ⟨_, List.mem_singleton_self _, fun hmem => ?_⟩
  exact Nat.lt_irrefl _ (hs.id_lt_nextId _ hmem)

/-- A step installs a sink if none was installed and it needs one, or if it sets another mode than
the one in force. -/
theorem Consistent.installs_iff (hs : s.Consistent) :
    s.Installs t ↔
      (s.sink = none ∧ (t.usesLogger = true ∨ (t.setting? s.environment).isSome = true)) ∨
        ∃ m, t.setting? s.environment = some m ∧ m ≠ s.mode := by
  cases hs.turn t with
  | @sets m asked idle _ eq =>
    rw [Installs, eq]
    constructor
    · rintro ⟨k, hk, hnew⟩
      cases hsink : s.sink with
      | none => exact .inl ⟨rfl, .inr (by rw [asked]; rfl)⟩
      | some id =>
        refine .inr ⟨m, asked, fun hm => hnew ?_⟩
        rwa [install_of_eq (by rw [hsink]; rfl) hm] at hk
    · rintro (⟨hsink, -⟩ | ⟨m', hm', hne⟩)
      · exact hs.sinks_install fun hsome => absurd hsome (by simp [hsink])
      · cases asked.symm.trans hm'
        exact hs.sinks_install fun _ => hne
  | uses silent busy _ eq =>
    rw [Installs, eq]
    constructor
    · rintro ⟨k, hk, hnew⟩
      refine .inl ⟨?_, .inl busy⟩
      by_contra hsink
      have hinit : s.initialized = true := by
        rw [hs.initialized_eq, Option.isSome_iff_ne_none]
        exact hsink
      rw [ensure_of_initialized hinit] at hk
      exact hnew hk
    · rintro (⟨hsink, -⟩ | ⟨m', hm', -⟩)
      · have hinit : s.initialized = false := by rw [hs.initialized_eq, hsink]; rfl
        rw [ensure_of_not_initialized hinit]
        exact hs.sinks_install fun hsome => absurd hsome (by simp [hsink])
      · rw [silent] at hm'
        cases hm'
  | empties silent idle _ eq =>
    refine iff_of_false (not_installs_of_subset (by rw [eq]; exact List.nil_subset _)) ?_
    simp [silent, idle]
  | keeps silent idle _ eq =>
    refine iff_of_false (not_installs_of_subset (by rw [eq]; exact List.Subset.refl _)) ?_
    simp [silent, idle]

/-- There is a sink after a step if the step installed one, or there was one and the hub was not
emptied. -/
theorem Consistent.sinks_step_ne_nil_iff (hs : s.Consistent) :
    (s.step t).1.hub.sinks ≠ [] ↔ s.Installs t ∨ t ≠ .removeAll ∧ s.hub.sinks ≠ [] := by
  have hinstall : ∀ m, s.hub.sinks ≠ [] → (s.install m).hub.sinks ≠ [] := by
    intro m hne
    by_cases h : s.sink.isSome = true → m ≠ s.mode
    · rw [hs.install_of_ne h]
      exact List.cons_ne_nil _ _
    · obtain ⟨hsink, hm⟩ := Classical.not_imp.1 h
      rwa [install_of_eq hsink (not_not.1 hm)]
  constructor
  · intro hne
    by_cases hremoves : t = .removeAll
    · subst hremoves
      exact absurd rfl hne
    · by_cases hinstalls : s.Installs t
      · exact .inl hinstalls
      · obtain ⟨k, hk⟩ := List.exists_mem_of_ne_nil _ hne
        have hold : k ∈ s.hub.sinks := by
          by_contra hnew
          exact hinstalls ⟨k, hk, hnew⟩
        exact .inr ⟨hremoves, List.ne_nil_of_mem hold⟩
  · rintro (⟨k, hk, -⟩ | ⟨hstays, hne⟩)
    · exact List.ne_nil_of_mem hk
    · cases hs.turn t with
      | sets _ _ _ eq => exact eq ▸ hinstall _ hne
      | uses _ _ _ eq =>
        rw [eq]
        show s.ensure.hub.sinks ≠ []
        unfold Session.ensure
        split
        · exact hne
        · exact hinstall _ hne
      | empties _ _ removes _ => exact absurd removes hstays
      | keeps _ _ _ eq => exact eq ▸ hne

theorem Consistent.isSome_sink_step_iff (hs : s.Consistent) :
    (s.step t).1.sink.isSome = true ↔ s.sink.isSome = true ∨ s.Installs t := by
  constructor
  · intro hsome
    by_cases hsink : s.sink = none
    · refine .inr (hs.installs_iff.2 (.inl ⟨hsink, ?_⟩))
      cases hs.turn t with
      | sets asked _ _ _ => exact .inr (by rw [asked]; rfl)
      | uses _ busy _ _ => exact .inl busy
      | empties _ _ _ eq => simp [eq, hsink] at hsome
      | keeps _ _ _ eq => simp [eq, hsink] at hsome
    · exact .inl (Option.isSome_iff_ne_none.2 hsink)
  · rintro (hsink | ⟨k, hk, -⟩)
    · have hinit : s.initialized = true := hs.initialized_eq.trans hsink
      cases hs.turn t with
      | sets _ _ _ eq =>
        rw [eq, ← hs.install.initialized_eq]
        exact hs.initialized_install
      | uses _ _ _ eq => rw [eq, ensure_of_initialized hinit, hsink]
      | empties _ _ _ eq => rw [eq, hsink]
      | keeps _ _ _ eq => rw [eq, hsink]
    · rw [((hs.step t).eq_of_mem_sinks k hk).1]
      rfl

/-! ## Histories -/

theorem everInstalled_concat_iff :
    EverInstalled environment (steps ++ [t]) ↔
      ((initial environment).run steps).Installs t ∨ EverInstalled environment steps :=
  exists_split_concat_iff (P := fun before t _ => ((initial environment).run before).Installs t)

theorem audible_concat_iff :
    Audible environment (steps ++ [t]) ↔
      ((initial environment).run steps).Installs t ∨
        t ≠ .removeAll ∧ Audible environment steps := by
  rw [Audible, exists_split_concat_iff (P := fun before u after =>
    ((initial environment).run before).Installs u ∧ Step.removeAll ∉ after)]
  simp only [List.not_mem_nil, not_false_eq_true, and_true, List.mem_append, List.mem_singleton,
    not_or, Audible]
  refine or_congr Iff.rfl ⟨?_, ?_⟩
  · rintro ⟨before, u, after, heq, hinstalls, hafter, ht⟩
    exact ⟨Ne.symm ht, before, u, after, heq, hinstalls, hafter⟩
  · rintro ⟨ht, before, u, after, heq, hinstalls, hafter⟩
    exact ⟨before, u, after, heq, hinstalls, hafter, Ne.symm ht⟩

/-- The library knows of a sink of its own when one of the steps installed one. -/
theorem everInstalled_iff :
    EverInstalled environment steps ↔ ((initial environment).run steps).sink.isSome = true := by
  induction steps using List.reverseRecOn with
  | nil =>
    refine iff_of_false ?_ Bool.false_ne_true
    rintro ⟨before, t, after, heq, -⟩
    simp at heq
  | append_singleton steps t ih =>
    rw [everInstalled_concat_iff, run_concat,
      (consistent_run_initial environment steps).isSome_sink_step_iff, ih, or_comm]

/-- The sink is there when one was installed and the hub was not emptied since. -/
theorem audible_iff :
    Audible environment steps ↔ ((initial environment).run steps).hub.sinks ≠ [] := by
  induction steps using List.reverseRecOn with
  | nil =>
    refine iff_of_false ?_ (not_not_intro rfl)
    rintro ⟨before, t, after, heq, -⟩
    simp at heq
  | append_singleton steps t ih =>
    rw [audible_concat_iff, run_concat,
      (consistent_run_initial environment steps).sinks_step_ne_nil_iff, ih]

/-! ## Records -/

theorem emit_of_sinks_eq_nil (h : s.hub.sinks = []) (r : LogRecord) : s.emit r = [] := by
  simp [emit, Hub.accepting, h]

/-- The sink accepts the records of this library that reach the level of the mode in force. -/
theorem Consistent.emit_of_sinks_ne_nil (hs : s.Consistent) (h : s.hub.sinks ≠ [])
    (r : LogRecord) :
    s.emit r =
      if (LogRecord.isOwn r.bindings && s.mode.shows r.level) = true then [⟨s.mode, r⟩]
      else [] := by
  obtain ⟨k, hk⟩ : ∃ k, s.hub.sinks = [k] := by
    refine List.length_eq_one_iff.1 (Nat.le_antisymm hs.length_sinks_le ?_)
    exact List.length_pos_iff.2 h
  have hmode : k.mode = s.mode := (hs.eq_of_mem_sinks k (by simp [hk])).2
  simp only [emit, Hub.accepting, hk, List.filter_cons, List.filter_nil, Sink.accepts, hmode]
  split <;> rfl

theorem Consistent.flatMap_emit (hs : s.Consistent) (h : s.hub.sinks ≠ []) (rs : List LogRecord) :
    rs.flatMap s.emit = (rs.filter fun r =>
      LogRecord.isOwn r.bindings && s.mode.shows r.level).map (Written.mk s.mode) := by
  induction rs with
  | nil => rfl
  | cons r rs ih =>
    rw [List.flatMap_cons, ih, hs.emit_of_sinks_ne_nil h, List.filter_cons]
    split <;> rfl

/-- Once the library has installed a sink, an empty hub stays empty as long as the mode does not
change. -/
theorem Consistent.sinks_run_eq_nil (hs : s.Consistent) (hsink : s.sink.isSome = true)
    (hsinks : s.hub.sinks = []) (hmode : ∀ p, p <+: steps → (s.run p).mode = s.mode) :
    (s.run steps).hub.sinks = [] := by
  induction steps generalizing s with
  | nil => exact hsinks
  | cons t steps ih =>
    have hsame : (s.step t).1.mode = s.mode := hmode [t] ⟨steps, rfl⟩
    have hnot : ¬ s.Installs t := by
      rw [hs.installs_iff]
      rintro (⟨hnone, -⟩ | ⟨m, hm, hne⟩)
      · rw [hnone] at hsink
        cases hsink
      · rw [hs.mode_step, hm] at hsame
        exact hne hsame
    refine ih (hs.step t) (hs.isSome_sink_step_iff.2 (.inl hsink)) ?_ fun p hp => ?_
    · by_contra hne
      rcases hs.sinks_step_ne_nil_iff.1 hne with hinstalls | ⟨-, hold⟩
      · exact hnot hinstalls
      · exact hold hsinks
    · rw [hsame]
      exact hmode (t :: p) (List.cons_prefix_cons.2 ⟨rfl, hp⟩)

/-- Whatever was done before, there is one sink at most, it is the library's own one, and it is at
the mode in force; the library took over the hub if and only if it has a sink. A step installs a
sink if none was installed yet and the step uses the logger or sets a mode, or if it sets another
mode than the one in force, and only then. Every record that a step hands over is accepted by a sink
once if it is one of this library, reaches the level of the mode and finds a sink that was installed
since the hub was emptied last; it is not accepted otherwise, and then nothing is written for it. So
if the hub is emptied after a sink was installed, nothing is written until the mode changes. An
accepted record leaves its line in the error stream, unless its origin cannot be rendered. -/
theorem written_by_history (environment : Option Text) (steps : List Step) :
    let s := (initial environment).run steps
    s.hub.sinks.length ≤ 1 ∧
    (∀ k ∈ s.hub.sinks, s.sink = some k.id ∧ k.mode = s.mode) ∧
    (s.initialized = true ↔ s.sink.isSome = true) ∧
    (∀ t, s.Installs t ↔
      (¬ EverInstalled environment steps ∧
        (t.usesLogger = true ∨ (t.setting? s.environment).isSome = true)) ∨
      ∃ m, t.setting? s.environment = some m ∧ m ≠ s.mode) ∧
    (∀ t, let s' := (s.step t).1
      (Audible environment (steps ++ [t]) →
        (s.step t).2.1 = ((t.records s.prepared).filter fun r =>
          LogRecord.isOwn r.bindings && s'.mode.shows r.level).map (Written.mk s'.mode)) ∧
      (¬ Audible environment (steps ++ [t]) → (s.step t).2.1 = [])) ∧
    (EverInstalled environment steps →
      let emptied := (s.step .removeAll).1
      ∀ later t, (∀ p, p <+: later ++ [t] → (emptied.run p).mode = s.mode) →
        ((emptied.run later).step t).2.1 = []) := by
  intro s
  have hs : s.Consistent := consistent_run_initial environment steps
  refine ⟨hs.length_sinks_le, hs.eq_of_mem_sinks, by rw [hs.initialized_eq], fun t => ?_,
    fun t => ⟨fun haudible => ?_, fun hsilent => ?_⟩, fun hever later t hmode => ?_⟩
  · rw [hs.installs_iff, everInstalled_iff, Bool.not_eq_true, Option.isSome_eq_false_iff,
      Option.isNone_iff_eq_none]
  · rw [audible_iff, run_concat] at haudible
    rw [hs.written_step, (hs.step t).flatMap_emit haudible]
  · rw [audible_iff, run_concat, not_not] at hsilent
    rw [hs.written_step, List.flatMap_eq_nil_iff]
    exact fun r _ => emit_of_sinks_eq_nil hsilent r
  · have hemptied : (s.step .removeAll).1.Consistent := hs.step .removeAll
    have hsinks : ((s.step .removeAll).1.run (later ++ [t])).hub.sinks = [] :=
      hemptied.sinks_run_eq_nil (everInstalled_iff.1 hever) rfl hmode
    rw [run_concat] at hsinks
    rw [(hemptied.run later).written_step, List.flatMap_eq_nil_iff]
    exact fun r _ => emit_of_sinks_eq_nil hsinks r

/-- A sink at the mode of information is installed and accepts a record, the hub is emptied, the
same mode is set again, and an error is lost. -/
theorem written_by_history_same_mode :
    let steps := [Step.set (.text "info".toList)]
    let s := (initial none).run steps
    let note := Step.emit .info (.text ['x']) []
    let r : LogRecord := ⟨.info, ['x'], LogRecord.ownBindings []⟩
    let emptied := (s.step .removeAll).1
    s.mode = .info ∧ Audible none (steps ++ [note]) ∧ (s.step note).2.1 = [⟨.info, r⟩] ∧
      ((emptied.run steps).step (.emit .error (.text ['y']) [])).2.1 = [] := by
  intro steps s note r emptied
  have hinstalls : (initial none).Installs (.set (.text "info".toList)) :=
    ⟨⟨1, .info⟩, by decide, by decide⟩
  have hever : EverInstalled none steps := ⟨[], _, [], rfl, hinstalls⟩
  have haudible : Audible none (steps ++ [note]) :=
    ⟨[], _, [note], rfl, hinstalls, by simp [note]⟩
  obtain ⟨-, -, -, -, hwritten, hsilent⟩ := written_by_history none steps
  refine ⟨rfl, haudible, ((hwritten note).1 haudible).trans rfl, hsilent hever steps _ ?_⟩
  intro p hp
  rcases List.prefix_concat_iff.1 hp with rfl | hp
  · rfl
  · rcases List.prefix_cons_iff.1 hp with rfl | ⟨p', rfl, hp'⟩
    · rfl
    · rw [List.prefix_nil.1 hp']
      rfl

/-- Emptying the hub before anything was installed silences nothing: the first record installs the
sink, which accepts it although the mode does not change. -/
theorem not_silent_before_first_sink :
    ¬ ∀ (environment : Option Text) (before later : List Step) (t : Step),
      let emptied := (((initial environment).run before).step .removeAll).1
      (∀ p, p <+: later ++ [t] → (emptied.run p).mode = emptied.mode) →
        ((emptied.run later).step t).2.1 = [] := by
  intro h
  have hmode : ∀ p, p <+: [] ++ [Step.emit .warning (.text ['x']) []] →
      (((initial none).step .removeAll).1.run p).mode =
        ((initial none).step .removeAll).1.mode := by
    intro p hp
    rcases List.prefix_concat_iff.1 hp with rfl | hp
    · rfl
    · rw [List.prefix_nil.1 hp]
      rfl
  have hwritten : ((((initial none).step .removeAll).1.run []).step
      (.emit .warning (.text ['x']) [])).2.1 ≠ [] := List.cons_ne_nil _ _
  exact hwritten (h none [] [] _ hmode)

end Session

end DottedNames
