import DottedNames.Command.Run
import DottedNames.Proofs.Log.Session

/-!
# The log mode of a run

A flag for debugging, the option for the log mode and the environment say in which mode a job runs,
each of them only if those before it say nothing (`Invocation.logsIn_debug_iff`). What the job
writes to the standard output and its exit code have nothing to do with the mode: they are the same
in every session. So neither the environment nor flags for debugging change the result of a run
(`Invocation.result_of_flagged`).
-/

namespace DottedNames.Command

/-- What a run leaves behind apart from the error stream. -/
def Outcome.result (o : Outcome) : Nat × Text := (o.exit, o.output)

/-- The exit code of a run and its standard output. -/
def Invocation.result (i : Invocation) : Nat × Text := i.run.result

/-- The second list is the first one with flags for debugging put in anywhere. -/
inductive Flagged : List Text → List Text → Prop
  /-- Nothing is put in. -/
  | nil : Flagged [] []
  /-- An argument stays. -/
  | keep {ts us : List Text} (t : Text) (h : Flagged ts us) : Flagged (t :: ts) (t :: us)
  /-- A flag is put in. -/
  | flag {ts us : List Text} {t : Text} (ht : isDebugFlag t = true) (h : Flagged ts us) :
    Flagged ts (t :: us)

/-- The program runs a job, with a sink at the given mode and no other one. -/
structure Invocation.LogsIn (i : Invocation) (t : Job) (m : LogMode) : Prop where
  run_eq : i.run = i.perform (i.session (i.requestedMode t)) t
  mode_eq : (i.session (i.requestedMode t)).mode = m
  map_mode_sinks : (i.session (i.requestedMode t)).hub.sinks.map Sink.mode = [m]

variable {i : Invocation} {ts us : List Text} {debug : Bool} {t : Job} {m : LogMode}
  {mode : Option LogMode}

/-! ## Flags put in -/

theorem Flagged.filter_eq (h : Flagged ts us) :
    us.filter (fun t => !isDebugFlag t) = ts.filter fun t => !isDebugFlag t := by
  induction h with
  | nil => rfl
  | keep t _ ih => rw [List.filter_cons, List.filter_cons, ih]
  | flag ht _ ih => rw [List.filter_cons, ht, ih]; rfl

/-- If no flag was put in, nothing was. -/
theorem Flagged.eq_of_any_eq_false (h : Flagged ts us) (hus : us.any isDebugFlag = false) :
    us = ts := by
  induction h with
  | nil => rfl
  | keep t _ ih =>
    rw [List.any_cons, Bool.or_eq_false_iff] at hus
    rw [ih hus.2]
  | flag ht _ _ =>
    rw [List.any_cons, ht] at hus
    cases hus

/-- Flags that are put in are not read. -/
theorem Invocation.ordinary_of_flagged {arguments : List Text} (h : Flagged i.arguments arguments)
    (environment : Option Text) :
    ({ i with arguments, environment } : Invocation).ordinary = i.ordinary := h.filter_eq

/-! ## The session of a job -/

theorem Invocation.requestedMode_of_any (h : i.arguments.any isDebugFlag = true) :
    i.requestedMode t = some .debug := if_pos h

theorem Invocation.requestedMode_of_any_eq_false (h : i.arguments.any isDebugFlag = false) :
    i.requestedMode t = t.logMode := by
  rw [requestedMode, h]
  rfl

theorem Invocation.run_of_request (hr : i.request = .ok ⟨debug, some t⟩) :
    i.run = i.perform (i.session (i.requestedMode t)) t := by
  rw [run, hr, conclude]

/-! ## Results -/

/-- The result of a job is the same in every session. -/
theorem Invocation.result_perform (i : Invocation) (s s' : Session) (t : Job) :
    (i.perform s t).result = (i.perform s' t).result := by
  cases t with
  | check names json mode => rfl
  | help => rfl
  | scan path unique json mode =>
    simp only [perform]
    cases i.source path <;> rfl

/-- The result of a job is what it is in any session. -/
theorem Invocation.result_of_job (hr : i.request = .ok ⟨debug, some t⟩) (s : Session) :
    i.result = (i.perform s t).result := by
  rw [result, run_of_request hr]
  exact i.result_perform _ s t

/-- What was requested has the same result with other flags and in another environment. -/
theorem Invocation.result_conclude (i : Invocation) (arguments : List Text)
    (environment : Option Text) (request : Except Stop Request) :
    (({ i with arguments, environment } : Invocation).conclude request).result =
      (i.conclude request).result := by
  cases request with
  | error stop => cases stop <;> rfl
  | ok r =>
    obtain ⟨debug, job⟩ := r
    cases job with
    | none => rfl
    | some t => exact i.result_perform _ _ t

/-- Neither the environment nor flags for debugging that are put in anywhere among the arguments
change the exit code or the standard output of a run. -/
theorem Invocation.result_of_flagged (i : Invocation) {arguments : List Text}
    (h : Flagged i.arguments arguments) (environment : Option Text) :
    ({ i with arguments, environment } : Invocation).result = i.result := by
  have hrequest : ({ i with arguments, environment } : Invocation).request = i.request :=
    congrArg (parse .current) (ordinary_of_flagged h environment)
  rw [result, run, hrequest, result_conclude]
  rfl

/-- A flag in front of the command, one between an option and its value, and one behind the
separator, in an environment that asks for debugging, leave the result of checking `a` and `a..b` as
it is. -/
theorem Invocation.result_of_flagged_check :
    let i : Invocation := {
      arguments :=
        ["check".toList, "--log-mode".toList, "info".toList, "--".toList, ['a'], "a..b".toList]
      input := []
      environment := none
      moment := { date := ⟨2000, 1, 1⟩, time := ⟨0, 0, 0, 0⟩ }
      installed := true
      read := fun _ => .error .missing }
    let arguments := ["-d".toList, "check".toList, "--log-mode".toList, "--debug".toList,
      "info".toList, "--".toList, ['a'], "-d".toList, "a..b".toList]
    Flagged i.arguments arguments ∧
      ({ i with arguments, environment := some "debug".toList } : Invocation).result = i.result ∧
      i.result.1 = 1 := by
  intro i arguments
  have htail : Flagged ["--".toList, ['a'], "a..b".toList]
      ["--".toList, ['a'], "-d".toList, "a..b".toList] :=
    .keep _ (.keep _ (.flag rfl (.keep _ .nil)))
  have hflagged : Flagged i.arguments arguments :=
    .flag rfl (.keep _ (.keep _ (.flag rfl (.keep _ htail))))
  refine ⟨hflagged, i.result_of_flagged hflagged (some "debug".toList), ?_⟩
  decide +kernel

/-! ## The mode of a job -/

/-- Installing a sink at a mode puts one sink at that mode into a hub without any. -/
theorem map_mode_sinks_install (environment : Option Text) (m : LogMode) :
    ((Session.initial environment).install m).hub.sinks.map Sink.mode = [m] := by
  rw [(Session.consistent_initial environment).install_of_ne nofun]
  rfl

theorem Invocation.mode_session :
    (i.session mode).mode = mode.getD (.ofEnvironment i.environment) := Session.mode_install

/-- A job runs in the mode that is asked for, and in that of the environment if none is. -/
theorem Invocation.logsIn_iff (hr : i.request = .ok ⟨debug, some t⟩) :
    i.LogsIn t m ↔ (i.requestedMode t).getD (.ofEnvironment i.environment) = m := by
  constructor
  · intro h
    rw [← mode_session, h.mode_eq]
  · rintro rfl
    exact ⟨run_of_request hr, mode_session, map_mode_sinks_install i.environment _⟩

/-- A job runs in the mode for debugging if there is a flag for debugging anywhere among the
arguments, whatever the option for the log mode and the environment say. Without such a flag it does
if the option asks for that mode, or the environment where there is no option. Whether debugging was
asked for at the root level in another spelling is of no account. -/
theorem Invocation.logsIn_debug_iff (hr : i.request = .ok ⟨debug, some t⟩) :
    i.LogsIn t .debug ↔ i.arguments.any isDebugFlag = true ∨ t.logMode = some .debug ∨
      t.logMode = none ∧ .ofEnvironment i.environment = LogMode.debug := by
  rw [logsIn_iff hr]
  cases hany : i.arguments.any isDebugFlag with
  | true => simp [requestedMode_of_any hany]
  | false =>
    rw [requestedMode_of_any_eq_false hany]
    cases t.logMode <;> simp

/-- The flag stands behind the command, and the option and the environment ask for other modes. -/
theorem Invocation.logsIn_debug_behind_command :
    let i : Invocation := {
      arguments := ["check".toList, "--log-mode=warning".toList, "-d".toList, ['1']]
      input := []
      environment := some "info".toList
      moment := { date := ⟨2000, 1, 1⟩, time := ⟨0, 0, 0, 0⟩ }
      installed := true
      read := fun _ => .error .missing }
    let t : Job := .check [['1']] false (some .warning)
    i.request = .ok ⟨false, some t⟩ ∧ i.LogsIn t .debug := by
  intro i t
  have hrequest : i.request = .ok ⟨false, some t⟩ := by decide +kernel
  exact ⟨hrequest, (logsIn_debug_iff hrequest).2 (.inl rfl)⟩

/-- The beginning `--deb` of a flag is understood at the root level, and yet the job runs in the
quietest mode. -/
theorem Invocation.exists_debug_not_logsIn :
    ¬∀ (i : Invocation) (debug : Bool) (t : Job), i.request = .ok ⟨debug, some t⟩ →
      i.arguments.any isDebugFlag = true ∨ debug = true → i.LogsIn t .debug := by
  intro h
  let i : Invocation := {
    arguments := ["--deb".toList, "check".toList, ['1']]
    input := []
    environment := none
    moment := { date := ⟨2000, 1, 1⟩, time := ⟨0, 0, 0, 0⟩ }
    installed := true
    read := fun _ => .error .missing }
  have hrequest : i.request = .ok ⟨true, some (.check [['1']] false none)⟩ := by decide +kernel
  have hmode := (logsIn_iff hrequest).1 (h i _ _ hrequest (.inr rfl))
  exact absurd hmode (by decide)

end DottedNames.Command
