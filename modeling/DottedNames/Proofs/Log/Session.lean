import DottedNames.Log.Session
import Mathlib.Data.List.Basic

/-!
# The state of logging

What a step makes of the state follows from what it asks for (`Session.Consistent.turn`): it sets a
mode, or it uses the logger, or it empties the hub, or it changes the variable of the environment at
most. Which of its records are accepted is up to the sinks in the state it leads to. A state that is
reached in this way is consistent: the hub has one sink at most, that sink is the library's own one,
and it is at the mode in force.
-/

namespace DottedNames.Session

/-! ## What a step asks for -/

/-- The mode that a step sets, unless it sets none or is refused, when the variable of the
environment is as given. -/
def Step.setting? (environment : Option Text) : Step → Option LogMode
  | .set mode => (LogMode.parseDatum mode).toOption
  | .configure (some mode) => (LogMode.parseDatum mode).toOption
  | .configure none => some (.ofEnvironment environment)
  | _ => none

/-- Whether a step uses the logger. -/
def Step.usesLogger : Step → Bool
  | .fetch => true
  | .emit _ _ _ => true
  | .recognize _ => true
  | .find _ => true
  | _ => false

/-- The variable of the environment after a step. -/
def Step.environmentAfter (environment : Option Text) : Step → Option Text
  | .environment value => value
  | _ => environment

/-- The record about the recognition pattern. -/
def preparation : LogRecord where
  level := .debug
  message := "compiling fqn recognition pattern: ".toList ++ Grammar.dottedName.source
  bindings := LogRecord.ownBindings (action "compile_fqn_pattern")

/-- The record about the names that were found in a datum. -/
def discovery (text : Datum) (tokens : List Token) : LogRecord where
  level := .debug
  message := "found ".toList ++ Text.ofNat tokens.length ++ " fqn token(s) in ".toList ++
    Text.ofNat (sizeOf text) ++ " character(s)".toList
  bindings := LogRecord.ownBindings (action "find_fqns")

/-- The records that a step hands to the hub, in order; the pattern is prepared only once. -/
def Step.records (prepared : Bool) : Step → List LogRecord
  | .emit level message bs => [⟨level, message.inserted, LogRecord.ownBindings bs⟩]
  | .foreign level message bs => [⟨level, message.inserted, bs⟩]
  | .recognize _ => if prepared then [] else [preparation]
  | .find text =>
    (if prepared then [] else [preparation]) ++
      match text.tokens with
      | .ok tokens => [discovery text tokens]
      | .error _ => []
  | _ => []

variable {s : Session} {t : Step} {m : LogMode}

/-! ## Consistent states -/

/-- The hub has no other sinks than the library's own one, and that one is at the mode in force. -/
structure Consistent (s : Session) : Prop where
  /-- The library took over the hub when it installed a sink. -/
  initialized_eq : s.initialized = s.sink.isSome
  /-- The logger is used for preparing the pattern. -/
  initialized_of_prepared : s.prepared = true → s.initialized = true
  /-- A sink is the library's own one, and at the mode in force. -/
  eq_of_mem_sinks : ∀ k ∈ s.hub.sinks, s.sink = some k.id ∧ k.mode = s.mode
  /-- The number of the next sink is a new one. -/
  id_lt_nextId : ∀ k ∈ s.hub.sinks, k.id < s.hub.nextId
  /-- There is one sink at most. -/
  length_sinks_le : s.hub.sinks.length ≤ 1

theorem consistent_initial (environment : Option Text) : (initial environment).Consistent where
  initialized_eq := rfl
  initialized_of_prepared := nofun
  eq_of_mem_sinks := nofun
  id_lt_nextId := nofun
  length_sinks_le := Nat.zero_le 1

/-- No sink stays beside the one that is going to be installed. -/
theorem Consistent.cleared_eq (hs : s.Consistent) : s.cleared = ⟨[], s.hub.nextId⟩ := by
  have hinit := hs.initialized_eq
  cases hsink : s.sink with
  | none =>
    have hsinks : s.hub.sinks = [] := by
      refine List.eq_nil_iff_forall_not_mem.2 fun k hk => ?_
      have hown := (hs.eq_of_mem_sinks k hk).1
      rw [hsink] at hown
      cases hown
    simp [cleared, hinit, hsink, Hub.remove, hsinks]
  | some id =>
    have hnone : s.hub.sinks.filter (·.id != id) = [] := by
      refine List.filter_eq_nil_iff.2 fun k hk => ?_
      have hown := (hs.eq_of_mem_sinks k hk).1
      rw [hsink] at hown
      simp [Option.some.inj hown]
    simp [cleared, hinit, hsink, Hub.remove, hnone]

/-! ## Installing a sink -/

theorem install_of_eq (hsink : s.sink.isSome = true) (hm : m = s.mode) : s.install m = s :=
  if_pos ⟨hsink, hm⟩

/-- A sink that is installed is the only one. -/
theorem Consistent.install_of_ne (hs : s.Consistent) (h : s.sink.isSome = true → m ≠ s.mode) :
    s.install m = { s with
      hub := ⟨[⟨s.hub.nextId, m⟩], s.hub.nextId + 1⟩
      sink := some s.hub.nextId
      initialized := true
      mode := m } := by
  rw [Session.install, if_neg fun hboth => h hboth.1 hboth.2]
  simp [hs.cleared_eq, Hub.install]

theorem mode_install : (s.install m).mode = m := by
  unfold install
  split
  · next h => exact h.2.symm
  · rfl

theorem environment_install : (s.install m).environment = s.environment := by
  unfold install
  split <;> rfl

theorem Consistent.initialized_install (hs : s.Consistent) : (s.install m).initialized = true := by
  unfold Session.install
  split
  · next h => rw [hs.initialized_eq, h.1]
  · rfl

theorem Consistent.install (hs : s.Consistent) : (s.install m).Consistent := by
  by_cases h : s.sink.isSome = true → m ≠ s.mode
  · rw [hs.install_of_ne h]
    exact {
      initialized_eq := rfl
      initialized_of_prepared := fun _ => rfl
      eq_of_mem_sinks := by simp
      id_lt_nextId := by simp
      length_sinks_le := Nat.le_refl 1 }
  · obtain ⟨hsink, hm⟩ := Classical.not_imp.1 h
    rwa [install_of_eq hsink (not_not.1 hm)]

/-! ## Using the logger -/

theorem ensure_of_initialized (h : s.initialized = true) : s.ensure = s := if_pos h

theorem ensure_of_not_initialized (h : s.initialized = false) :
    s.ensure = s.install (.ofEnvironment s.environment) := by
  rw [ensure, h]
  rfl

theorem Consistent.initialized_ensure (hs : s.Consistent) : s.ensure.initialized = true := by
  unfold Session.ensure
  split
  · assumption
  · exact hs.initialized_install

theorem Consistent.ensure (hs : s.Consistent) : s.ensure.Consistent := by
  unfold Session.ensure
  split
  · exact hs
  · exact hs.install

theorem environment_ensure : s.ensure.environment = s.environment := by
  unfold ensure
  split
  · rfl
  · exact environment_install

theorem Consistent.prepare_eq (hs : s.Consistent) :
    s.prepare = ({ s.ensure with prepared := true },
      (if s.prepared then [] else [preparation]).flatMap s.ensure.emit) := by
  unfold Session.prepare
  split
  · next h =>
    rw [ensure_of_initialized (hs.initialized_of_prepared h)]
    simp [← h]
  · simp [log, preparation]

/-! ## What a step does -/

/-- What a step makes of a state. -/
inductive Turn (s : Session) (t : Step) (s' : Session) : Prop where
  /-- The step sets a mode. -/
  | sets {m : LogMode} (asked : t.setting? s.environment = some m) (idle : t.usesLogger = false)
      (stays : t ≠ .removeAll) (eq : s' = s.install m)
  /-- The step uses the logger, and prepares the pattern or not. -/
  | uses {b : Bool} (silent : t.setting? s.environment = none) (busy : t.usesLogger = true)
      (stays : t ≠ .removeAll) (eq : s' = { s.ensure with prepared := b })
  /-- The step empties the hub. -/
  | empties (silent : t.setting? s.environment = none) (idle : t.usesLogger = false)
      (removes : t = .removeAll) (eq : s' = { s with hub := s.hub.removeAll })
  /-- The step changes the variable of the environment at most. -/
  | keeps (silent : t.setting? s.environment = none) (idle : t.usesLogger = false)
      (stays : t ≠ .removeAll)
      (eq : s' = { s with environment := t.environmentAfter s.environment })

/-- Finding names prepares the pattern, whether or not there is anything to be reported. -/
theorem Consistent.find_eq (hs : s.Consistent) (text : Datum) :
    s.find text = ({ s.ensure with prepared := true },
      ((Step.find text).records s.prepared).flatMap s.ensure.emit,
      text.tokens >>= namesOfTokens) := by
  rw [Session.find, tokens, hs.prepare_eq, Step.records, List.flatMap_append]
  cases text.tokens with
  | error f => exact congrArg (Prod.mk _ <| Prod.mk · _) (List.append_nil _).symm
  | ok tokens =>
    -- The logger was used before, so the second record finds the state as it is.
    have hready : { s.ensure with prepared := true }.ensure = { s.ensure with prepared := true } :=
      ensure_of_initialized hs.initialized_ensure
    simp only [log, hready, List.flatMap_singleton]
    rfl

theorem Consistent.turn (hs : s.Consistent) (t : Step) : Turn s t (s.step t).1 := by
  have hmode : ∀ {d : Datum} {m}, LogMode.parseDatum d = .ok m →
      (LogMode.parseDatum d).toOption = some m := fun h => by rw [h]; rfl
  have hnone : ∀ {d : Datum} {f}, LogMode.parseDatum d = .error f →
      (LogMode.parseDatum d).toOption = none := fun h => by rw [h]; rfl
  cases t with
  | set d =>
    cases hd : LogMode.parseDatum d with
    | ok m => exact .sets (hmode hd) rfl nofun (by simp only [step, hd])
    | error f => exact .keeps (hnone hd) rfl nofun (by simp only [step, hd]; rfl)
  | configure d? =>
    cases d? with
    | none => exact .sets rfl rfl nofun rfl
    | some d =>
      cases hd : LogMode.parseDatum d with
      | ok m => exact .sets (hmode hd) rfl nofun (by simp only [step, hd])
      | error f => exact .keeps (hnone hd) rfl nofun (by simp only [step, hd]; rfl)
  | environment value => exact .keeps rfl rfl nofun rfl
  | fetch => exact .uses rfl rfl nofun rfl
  | emit level message bs => exact .uses rfl rfl nofun rfl
  | foreign level message bs => exact .keeps rfl rfl nofun rfl
  | removeAll => exact .empties rfl rfl rfl rfl
  | recognize text =>
    have hstate : (s.step (.recognize text)).1 = { s.ensure with prepared := true } := by
      simp only [step, Session.recognize, hs.prepare_eq]
    exact .uses rfl rfl nofun hstate
  | find text =>
    have hstate : (s.step (.find text)).1 = { s.ensure with prepared := true } := by
      simp only [step, hs.find_eq]
    exact .uses rfl rfl nofun hstate

/-- The mode after a step is the one it sets; otherwise the first use of the logger makes it the one
that the environment asks for. -/
theorem Consistent.mode_step (hs : s.Consistent) (t : Step) :
    (s.step t).1.mode = (t.setting? s.environment).getD
      (if t.usesLogger = true ∧ s.initialized = false then .ofEnvironment s.environment
      else s.mode) := by
  cases hs.turn t with
  | sets asked _ _ eq => rw [eq, asked, mode_install, Option.getD_some]
  | uses silent busy _ eq =>
    rw [eq, silent, Option.getD_none]
    cases hinit : s.initialized with
    | true => simp [ensure_of_initialized hinit]
    | false => simp [ensure_of_not_initialized hinit, busy, mode_install]
  | empties silent idle _ eq => simp [eq, silent, idle]
  | keeps silent idle _ eq => simp [eq, silent, idle]

/-- Which records of a step are accepted is up to the sinks in the state it leads to. -/
theorem Consistent.written_step (hs : s.Consistent) (t : Step) :
    (s.step t).2.1 = (t.records s.prepared).flatMap (s.step t).1.emit := by
  cases t with
  | set d =>
    simp only [step]
    split <;> rfl
  | configure d? =>
    cases d? with
    | none => rfl
    | some d =>
      simp only [step]
      split <;> rfl
  | emit level message bs => exact (List.append_nil _).symm
  | foreign level message bs => exact (List.append_nil _).symm
  | recognize text =>
    simp only [step, Session.recognize, hs.prepare_eq]
    rfl
  | find text =>
    simp only [step, hs.find_eq]
    rfl
  | _ => rfl

theorem Consistent.step (hs : s.Consistent) (t : Step) : (s.step t).1.Consistent := by
  cases hs.turn t with
  | sets _ _ _ eq => exact eq ▸ hs.install
  | uses _ _ _ eq =>
    rw [eq]
    exact { hs.ensure with initialized_of_prepared := fun _ => hs.initialized_ensure }
  | empties _ _ _ eq =>
    rw [eq]
    exact {
      initialized_eq := hs.initialized_eq
      initialized_of_prepared := hs.initialized_of_prepared
      eq_of_mem_sinks := nofun
      id_lt_nextId := nofun
      length_sinks_le := Nat.zero_le 1 }
  | keeps _ _ _ eq => exact eq ▸ { hs with }

/-! ## Runs -/

variable {steps later : List Step}

theorem run_append : s.run (steps ++ later) = (s.run steps).run later := List.foldl_append

theorem run_concat : s.run (steps ++ [t]) = ((s.run steps).step t).1 := run_append

theorem Consistent.run (hs : s.Consistent) (steps : List Step) : (s.run steps).Consistent := by
  induction steps generalizing s with
  | nil => exact hs
  | cons t steps ih => exact ih (hs.step t)

theorem consistent_run_initial (environment : Option Text) (steps : List Step) :
    ((initial environment).run steps).Consistent := (consistent_initial environment).run steps

end DottedNames.Session
