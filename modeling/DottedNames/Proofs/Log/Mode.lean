import DottedNames.Proofs.Log.Session

/-!
# The mode in force

The mode in force is a matter of history: it is the one that was set last. If none was set, it is
the one that the environment asked for when the logger was used first, and if the logger was not
used either, it is the quietest one (`Session.mode_by_history`). A setting that is refused is no
part of the history.
-/

namespace DottedNames

namespace LogMode

variable {m : LogMode} {t : Text} {f : Fault}

/-! ## Names of modes -/

theorem ofName?_eq_some_iff : ofName? t = some m ↔ t = m.name := by
  constructor
  · intro h
    have hname : (m.name == t) = true := List.find?_some (p := fun m : LogMode => m.name == t) h
    exact (beq_iff_eq.1 hname).symm
  · rintro rfl
    cases m <;> decide

theorem ofName?_eq_none_iff : ofName? t = none ↔ ∀ m : LogMode, t ≠ m.name := by
  rw [Option.eq_none_iff_forall_ne_some]
  exact forall_congr' fun m => not_congr ofName?_eq_some_iff

/-- A text names the mode whose name it is, apart from blanks around it and from case. -/
theorem parse_eq_ok_iff : parse t = .ok m ↔ t.trim.toLower = m.name := by
  rw [← ofName?_eq_some_iff, parse]
  cases ofName? t.trim.toLower <;> simp

theorem parse_eq_error_iff :
    parse t = .error f ↔ (∀ m : LogMode, t.trim.toLower ≠ m.name) ∧ f = .invalidLogMode t := by
  rw [← ofName?_eq_none_iff, parse]
  cases ofName? t.trim.toLower <;> simp [eq_comm]

theorem ofEnvironment_of_eq_name (h : t.trim.toLower = m.name) : ofEnvironment (some t) = m := by
  rw [ofEnvironment, parse_eq_ok_iff.2 h]
  rfl

theorem ofEnvironment_of_ne_name (h : ∀ m : LogMode, t.trim.toLower ≠ m.name) :
    ofEnvironment (some t) = .warning := by
  rw [ofEnvironment, parse_eq_error_iff.2 ⟨h, rfl⟩]
  rfl

end LogMode

namespace Session

variable {s : Session} {t : Step} {d : Datum} {f : Fault}

/-! ## The history of a mode -/

/-- The modes that the steps set, in order, from the given variable of the environment on. -/
def settings (environment : Option Text) : List Step → List LogMode
  | [] => []
  | t :: steps =>
    (t.setting? environment).toList ++ settings (t.environmentAfter environment) steps

/-- The modes that the environment asks for at the steps that use the logger, in order. -/
def lookups (environment : Option Text) : List Step → List LogMode
  | [] => []
  | t :: steps =>
    (if t.usesLogger then [.ofEnvironment environment] else []) ++
      lookups (t.environmentAfter environment) steps

/-- A step that does not change the variable itself leaves it alone. -/
theorem Consistent.environment_step (hs : s.Consistent) (t : Step) :
    (s.step t).1.environment = t.environmentAfter s.environment := by
  have hcases : (∃ value, t = .environment value) ∨ t.environmentAfter s.environment =
      s.environment := by
    cases t with
    | environment value => exact .inl ⟨value, rfl⟩
    | _ => exact .inr rfl
  rcases hcases with ⟨value, rfl⟩ | hsame
  · rfl
  · cases hs.turn t with
    | sets _ _ _ eq => rw [eq, hsame, environment_install]
    | uses _ _ _ eq =>
      rw [eq, hsame]
      exact environment_ensure
    | empties _ _ _ eq => rw [eq, hsame]
    | keeps _ _ _ eq => rw [eq]

theorem Consistent.initialized_step (hs : s.Consistent) (t : Step) :
    (s.step t).1.initialized =
      (s.initialized || (t.setting? s.environment).isSome || t.usesLogger) := by
  cases hs.turn t with
  | sets asked idle _ eq => simp [eq, asked, hs.initialized_install]
  | uses silent busy _ eq => simp [eq, busy, hs.initialized_ensure]
  | empties silent idle _ eq => simp [eq, silent, idle]
  | keeps silent idle _ eq => simp [eq, silent, idle]

theorem Consistent.environment_run (hs : s.Consistent) (steps : List Step) :
    (s.run steps).environment = steps.foldl Step.environmentAfter s.environment := by
  induction steps generalizing s with
  | nil => rfl
  | cons t steps ih =>
    show ((s.step t).1.run steps).environment = _
    rw [ih (hs.step t), hs.environment_step, List.foldl_cons]

theorem getD_getLast?_toList_append {α : Type} (a? : Option α) (as : List α) (a : α) :
    (a?.toList ++ as).getLast?.getD a = as.getLast?.getD (a?.getD a) := by
  rw [List.getLast?_append]
  cases as.getLast? <;> cases a? <;> rfl

/-- The mode after a run, from any consistent state on. -/
theorem Consistent.mode_run (hs : s.Consistent) (steps : List Step) :
    (s.run steps).mode = (settings s.environment steps).getLast?.getD
      (if s.initialized then s.mode else (lookups s.environment steps).head?.getD s.mode) := by
  induction steps generalizing s with
  | nil => cases hinit : s.initialized <;> rfl
  | cons t steps ih =>
    show ((s.step t).1.run steps).mode = _
    rw [ih (hs.step t), hs.environment_step, hs.initialized_step, hs.mode_step, settings, lookups,
      getD_getLast?_toList_append]
    congr 1
    -- What the settings behind this step do not decide is decided by the step itself.
    cases t.setting? s.environment <;> cases s.initialized <;> cases t.usesLogger <;> simp

/-! ## Accepted and refused settings -/

theorem step_set_of_ok {m : LogMode} (h : LogMode.parseDatum d = .ok m) :
    s.step (.set d) = (s.install m, [], .ok .none) := by
  simp only [step, h]

theorem step_configure_of_ok {m : LogMode} (h : LogMode.parseDatum d = .ok m) :
    s.step (.configure (some d)) = (s.install m, [], .ok .none) := by
  simp only [step, h]

theorem step_set_of_error (h : LogMode.parseDatum d = .error f) :
    s.step (.set d) = (s, [], .error f) := by
  simp only [step, h]

theorem step_configure_of_error (h : LogMode.parseDatum d = .error f) :
    s.step (.configure (some d)) = (s, [], .error f) := by
  simp only [step, h]

/-- The mode in force is the one that was set last; if none was set, it is the one that the
environment asked for at the first use of the logger; and if there was no use either, it is the
quietest one. The environment asks for the mode that its variable names, apart from blanks around
the name and from case, and for the quietest one if it names none; a setting without a mode sets the
one that the environment asks for at that moment. A change of the variable, somebody else's record
and emptying the hub leave the mode alone. A setting that names a mode is accepted and puts it in
force; one that names no mode is refused and leaves the whole state alone. -/
theorem mode_by_history (environment : Option Text) (steps : List Step) :
    let s := (initial environment).run steps
    s.mode = (settings environment steps).getLast?.getD
      ((lookups environment steps).head?.getD .warning) ∧
    s.environment = steps.foldl Step.environmentAfter environment ∧
    (∀ (t : Text) (m : LogMode), t.trim.toLower = m.name → .ofEnvironment (some t) = m) ∧
    (∀ t : Text, (∀ m : LogMode, t.trim.toLower ≠ m.name) →
      LogMode.ofEnvironment (some t) = .warning) ∧
    LogMode.ofEnvironment none = .warning ∧
    (s.step (.configure none)).1.mode = .ofEnvironment s.environment ∧
    (∀ value, (s.step (.environment value)).1.mode = s.mode) ∧
    (∀ level message bs, (s.step (.foreign level message bs)).1.mode = s.mode) ∧
    (s.step .removeAll).1.mode = s.mode ∧
    (∀ d m, LogMode.parseDatum d = .ok m →
      s.step (.set d) = (s.install m, [], .ok .none) ∧
      s.step (.configure (some d)) = (s.install m, [], .ok .none) ∧
      (s.install m).mode = m) ∧
    (∀ t : Text, (∀ m : LogMode, t.trim.toLower ≠ m.name) →
      s.step (.set (.text t)) = (s, [], .error (.invalidLogMode t)) ∧
      s.step (.configure (some (.text t))) = (s, [], .error (.invalidLogMode t))) ∧
    ∀ d f, LogMode.parseDatum d = .error f →
      s.step (.set d) = (s, [], .error f) ∧ s.step (.configure (some d)) = (s, [], .error f) := by
  intro s
  have hinitial := consistent_initial environment
  have hrefused : ∀ t : Text, (∀ m : LogMode, t.trim.toLower ≠ m.name) →
      LogMode.parseDatum (.text t) = .error (.invalidLogMode t) :=
    fun t ht => LogMode.parse_eq_error_iff.2 ⟨ht, rfl⟩
  exact ⟨hinitial.mode_run steps, hinitial.environment_run steps,
    fun t m => LogMode.ofEnvironment_of_eq_name, fun t => LogMode.ofEnvironment_of_ne_name, rfl,
    mode_install, fun value => rfl, fun level message bs => rfl, rfl,
    fun d m h => ⟨step_set_of_ok h, step_configure_of_ok h, mode_install⟩,
    fun t ht => ⟨step_set_of_error (hrefused t ht), step_configure_of_error (hrefused t ht)⟩,
    fun d f h => ⟨step_set_of_error h, step_configure_of_error h⟩⟩

/-- A setting is refused before the variable changes, and the first use of the logger still asks the
environment. -/
theorem mode_by_history_refused_setting :
    let loud : Text := "loud".toList
    let steps := [Step.set (.text loud), .environment (some " Debug\n".toList), .fetch,
      .environment (some "info".toList)]
    (∀ m : LogMode, loud.trim.toLower ≠ m.name) ∧
      (initial none).step (.set (.text loud)) = (initial none, [], .error (.invalidLogMode loud)) ∧
      ((initial none).run steps).mode = .debug := by
  intro loud steps
  have hloud : ∀ m : LogMode, loud.trim.toLower ≠ m.name := by
    intro m
    cases m <;> decide
  obtain ⟨-, -, -, -, -, -, -, -, -, -, hrefused, -⟩ := mode_by_history none []
  obtain ⟨hmode, -⟩ := mode_by_history none steps
  exact ⟨hloud, (hrefused loud hloud).1, hmode.trans (by decide)⟩

end Session

end DottedNames
