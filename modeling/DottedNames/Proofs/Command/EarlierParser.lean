import DottedNames.Proofs.Command.LogMode
import DottedNames.Proofs.Command.ScanArguments

/-!
# The earlier parser

What the current release of the parser accepts, an earlier one accepts with the same meaning
(`Invocation.runEarlier_of_request`). So the releases part only where the current one refuses the
arguments or shows a help text or the version.

The argument follows the settings as they grow. What is left over stays left over, so arguments that
are accepted in the end leave nothing over on the way (`Settings.Precedes`), and without leftovers
no option is read differently.
-/

namespace DottedNames.Command

variable {r : ParserRelease} {l : CommandLevel} {s s' s'' : Settings} {o : CommandOption}
  {value flag t : Text} {a : Attachment} {as : List Argument} {ts : List Text}

/-! ## Settings grow -/

/-- What is left over stays left over, and no value is lost in between. -/
structure Settings.Precedes (s s' : Settings) : Prop where
  leftovers : s.leftovers <+: s'.leftovers
  modeLost : s'.modeLost = true → s.modeLost = true

namespace Settings.Precedes

theorem refl (s : Settings) : s.Precedes s := ⟨List.prefix_refl _, id⟩

theorem trans (h : s.Precedes s') (h' : s'.Precedes s'') : s.Precedes s'' :=
  ⟨h.leftovers.trans h'.leftovers, fun hlost => h.modeLost (h'.modeLost hlost)⟩

theorem leaveOver (s : Settings) (ts : List Text) :
    Settings.Precedes s { s with leftovers := s.leftovers ++ ts } := ⟨List.prefix_append _ _, id⟩

theorem leftovers_eq_nil (h : s.Precedes s') (hs' : s'.leftovers = []) : s.leftovers = [] :=
  List.prefix_nil.1 (hs' ▸ h.leftovers)

end Settings.Precedes

theorem precedes_of_applyEffect {w : Effect} (h : applyEffect l s w = .ok s') : s.Precedes s' := by
  cases w <;> cases h <;> exact ⟨List.prefix_refl _, id⟩

theorem precedes_of_applyEffects {ws : List Effect} (h : applyEffects l s ws = .ok s') :
    s.Precedes s' := by
  induction ws generalizing s with
  | nil =>
    cases h
    exact .refl _
  | cons w ws ih =>
    unfold applyEffects at h
    split at h
    · cases h
    · next hw => exact (precedes_of_applyEffect hw).trans (ih h)

theorem precedes_of_applyLogMode (h : applyLogMode .current l s o value = .ok s') :
    s.Precedes s' := by
  rw [applyLogMode, if_neg nofun] at h
  split at h
  · cases h
    exact ⟨List.prefix_refl _, nofun⟩
  · cases h

theorem precedes_of_applyAttached (h : applyAttached .current l s o flag a = .ok s') :
    s.Precedes s' := by
  unfold applyAttached at h
  split at h
  · exact precedes_of_applyLogMode h
  · split at h
    · cases h
    · split at h
      · cases h
      · exact (Settings.Precedes.leaveOver s _).trans (precedes_of_applyEffects h)

theorem precedes_of_applyOperands (h : applyOperands l s ts = .ok s') : s.Precedes s' := by
  simp only [applyOperands] at h
  split at h
  · split at h
    · cases h
      exact ⟨List.prefix_refl _, id⟩
    · cases h
  · cases h
    exact ⟨List.prefix_refl _, id⟩

theorem precedes_of_consume (h : consume .current l s as = .ok s') : s.Precedes s' := by
  fun_induction consume ParserRelease.current l s as with
  | case1 s =>
    cases h
    exact .refl _
  | case2 s t as ih => exact (Settings.Precedes.leaveOver s [t]).trans (ih h)
  | case4 s typed o flag a as s₁ hs ih => exact (precedes_of_applyAttached hs).trans (ih h)
  | case6 s typed o flag hvalue t as s₁ hs ih => exact (precedes_of_applyLogMode hs).trans (ih h)
  | case9 s typed o flag as hvalue s₁ hs ih => exact (precedes_of_applyEffect hs).trans (ih h)
  | case10 s a as _ _ _ n hn ih => exact (Settings.Precedes.leaveOver s _).trans (ih h)
  | case12 s a as _ _ _ n hn s₁ hs ih => exact (precedes_of_applyOperands hs).trans (ih h)
  | _ => cases h

/-! ## One option -/

/-- A cluster that leaves nothing over is read alike. -/
theorem clusterEarlier_of_cluster {ws : List Effect} (h : cluster l o t = .ok ⟨ws, []⟩) :
    clusterEarlier l o t = .ok ⟨ws, []⟩ := by
  induction t generalizing o ws with
  | nil => exact h
  | cons c t ih =>
    unfold cluster at h
    split at h
    · cases h
    · split at h
      · cases h
      · next next hnext =>
        split at h
        · cases h
        · cases hk : cluster l next t with
          | error stop =>
            rw [hk] at h
            cases h
          | ok k =>
            obtain ⟨ws', left⟩ := k
            rw [hk] at h
            cases h
            simp only [clusterEarlier, hnext, ih hk]
            rfl

theorem clusterOf_earlier {ws : List Effect} (h : clusterOf .current l o a = .ok ⟨ws, []⟩) :
    clusterOf .earlier l o a = .ok ⟨ws, []⟩ := by
  simp only [clusterOf] at h ⊢
  split at h
  · cases h
  · exact clusterEarlier_of_cluster h

/-- A value that is accepted is not the separator, which is none of the choices. -/
theorem applyLogMode_earlier (h : applyLogMode .current l s o value = .ok s') :
    applyLogMode .earlier l s o value = .ok s' := by
  have hvalue : value ≠ Argument.separatorText := by
    rintro rfl
    cases h
  rw [applyLogMode, if_neg fun hlost => hvalue hlost.2]
  rwa [applyLogMode, if_neg nofun] at h

/-- An option with something attached that leaves nothing over is read alike. -/
theorem applyAttached_earlier (h : applyAttached .current l s o flag a = .ok s')
    (hleft : s'.leftovers = []) : applyAttached .earlier l s o flag a = .ok s' := by
  unfold applyAttached at h ⊢
  split at h
  · next hvalue => rw [if_pos hvalue, applyLogMode_earlier h]
  · next hvalue =>
    rw [if_neg hvalue]
    split at h
    · cases h
    · next hrefused =>
      rw [if_neg hrefused]
      split at h
      · cases h
      · next k hk =>
        obtain ⟨ws, left⟩ := k
        have hnone : s.leftovers ++ left = [] := (precedes_of_applyEffects h).leftovers_eq_nil hleft
        obtain rfl : left = [] := (List.append_eq_nil_iff.1 hnone).2
        rw [clusterOf_earlier hk]
        exact h

/-! ## Whole levels -/

/-- Arguments that leave nothing over are read alike. -/
theorem consume_earlier (h : consume .current l s as = .ok s') (hleft : s'.leftovers = []) :
    consume .earlier l s as = .ok s' := by
  fun_induction consume ParserRelease.current l s as with
  | case1 s => rw [consume, h]
  | case2 s t as ih => rw [consume, ih h]
  | case4 s typed o flag a as s₁ hs ih =>
    have hleft₁ : s₁.leftovers = [] := (precedes_of_consume h).leftovers_eq_nil hleft
    simp only [consume, applyAttached_earlier hs hleft₁, ih h]
  | case6 s typed o flag hvalue t as s₁ hs ih =>
    simp only [consume, hvalue, applyLogMode_earlier hs, ih h, if_true]
  | case9 s typed o flag as hvalue s₁ hs ih =>
    rw [consume_option (Bool.not_eq_true _ ▸ hvalue) hs, ih h]
  | case10 s a as hunknown hattached hoption n hn ih =>
    rw [consume]
    exacts [(if_pos hn).trans (ih h), hunknown, hattached, hoption]
  | case12 s a as hunknown hattached hoption n hn s₁ hs ih =>
    rw [consume]
    · refine (if_neg hn).trans ?_
      split
      · next hstop => cases hs.symm.trans hstop
      · next s₂ hs₂ =>
        obtain rfl : s₁ = s₂ := Except.ok.inj (hs.symm.trans hs₂)
        exact ih h
    exacts [hunknown, hattached, hoption]
  | _ => cases h

theorem parseLevel_earlier (h : parseLevel .current l ts = .ok s) (hleft : s.leftovers = []) :
    parseLevel .earlier l ts = .ok s ∧ s.modeLost = false := by
  unfold parseLevel at h ⊢
  split at h
  · cases h
  · split at h
    · cases h
    · next s' hs =>
      split at h
      · cases h
      · next hoperands =>
        cases h
        simp only [consume_earlier hs hleft, if_neg hoperands, true_and]
        rw [← Bool.not_eq_true]
        exact fun hlost => Bool.false_ne_true ((precedes_of_consume hs).modeLost hlost)

/-! ## The whole command line -/

/-- What the current release reads without leftovers, an earlier one reads alike, and it loses no
value. -/
theorem readLevels_earlier {x : CommandLine} (h : readLevels .current ts = .ok x)
    (hleft : x.leftovers = []) : readLevels .earlier ts = .ok x ∧ x.modeLost = false := by
  obtain ⟨hleft, hleft'⟩ := List.append_eq_nil_iff.1 hleft
  unfold readLevels at h ⊢
  split at h
  · cases h
  · next root hroot =>
    split at h
    · next word rest hoperands =>
      split at h
      · next hverb =>
        cases h
        simp only [(parseLevel_earlier hroot hleft).1, hoperands, hverb, true_and]
        rfl
      · next v hverb =>
        split at h
        · cases h
        · next s hs =>
          cases h
          obtain ⟨hlevel, hlost⟩ := parseLevel_earlier hs hleft'
          simp only [(parseLevel_earlier hroot hleft).1, hoperands, hverb, hlevel, true_and]
          exact hlost
    · cases h
      simp only [(parseLevel_earlier hroot hleft).1, true_and]
      rfl

theorem parse_eq_ok_iff {q : Request} :
    parse r ts = .ok q ↔ ∃ x, readLevels r ts = .ok x ∧ x.leftovers = [] ∧
      q = ⟨x.root.debug, x.command.map fun c => c.1.job c.2⟩ := by
  rw [parse]
  cases readLevels r ts with
  | error stop => simp
  | ok x =>
    simp only [CommandLine.request, Except.ok.injEq, exists_eq_left', List.isEmpty_iff]
    split
    · next hleft => simp [hleft, eq_comm]
    · next hleft => simp [hleft]

/-- What the current release accepts, an earlier one accepts with the same meaning. -/
theorem parse_earlier {q : Request} (h : parse .current ts = .ok q) :
    parse .earlier ts = .ok q := by
  obtain ⟨x, hx, hleft, hq⟩ := parse_eq_ok_iff.1 h
  exact parse_eq_ok_iff.2 ⟨x, (readLevels_earlier hx hleft).1, hleft, hq⟩

namespace Invocation

variable {i : Invocation} {f : Fault}

/-- What the current release accepts, an earlier one accepts with the same outcome. -/
theorem runEarlier_of_request {q : Request} (h : i.request = .ok q) :
    i.runEarlier = .ok i.run := by
  obtain ⟨x, hx, hleft, -⟩ := parse_eq_ok_iff.1 h
  obtain ⟨hearlier, hlost⟩ := readLevels_earlier hx hleft
  have hkept : i.losesMode = false := by
    simp only [losesMode, hearlier, hlost, Bool.false_and, Bool.and_false]
  rw [runEarlier, hkept, parse_earlier h, run, h]
  rfl

/-! ## Results -/

theorem runEarlier_of_losesMode (h : i.losesMode = true) :
    i.runEarlier = .error (.noAttribute .list "strip".toList) := by
  rw [runEarlier, if_pos h]
  rfl

theorem runEarlier_of_losesMode_eq_false (h : i.losesMode = false) :
    i.runEarlier = .ok (i.conclude (parse .earlier i.ordinary)) := by
  rw [runEarlier, h]
  rfl

/-- Flags for debugging keep a run from being refused. -/
theorem losesMode_of_flagged {arguments : List Text} (h : Flagged i.arguments arguments)
    (environment : Option Text) :
    ({ i with arguments, environment } : Invocation).losesMode =
      (i.losesMode && !arguments.any isDebugFlag) := by
  cases hany : arguments.any isDebugFlag with
  | true => simp [losesMode, hany]
  | false =>
    obtain rfl : arguments = i.arguments := h.eq_of_any_eq_false hany
    rw [Bool.not_false, Bool.and_true]
    rfl

/-- With an earlier release, too, neither the environment nor flags for debugging that are put in
anywhere among the arguments change the exit code or the standard output of a run, unless the run is
refused and a flag is put in. -/
theorem result_runEarlier_of_flagged (i : Invocation) {arguments : List Text}
    (h : Flagged i.arguments arguments) (environment : Option Text) :
    ({ i with arguments, environment } : Invocation).runEarlier.map Outcome.result =
        i.runEarlier.map Outcome.result ↔
      i.losesMode = false ∨ arguments = i.arguments := by
  have hlost := losesMode_of_flagged h environment
  cases hi : i.losesMode with
  | false =>
    rw [hi, Bool.false_and] at hlost
    rw [runEarlier_of_losesMode_eq_false hi, runEarlier_of_losesMode_eq_false hlost,
      ordinary_of_flagged h environment]
    exact iff_of_true (congrArg Except.ok (i.result_conclude arguments environment _)) (.inl rfl)
  | true =>
    rw [hi, Bool.true_and] at hlost
    rw [runEarlier_of_losesMode hi]
    cases hany : arguments.any isDebugFlag with
    | false =>
      rw [hany] at hlost
      rw [runEarlier_of_losesMode hlost]
      exact iff_of_true rfl (.inr (h.eq_of_any_eq_false hany))
    | true =>
      rw [hany] at hlost
      rw [runEarlier_of_losesMode_eq_false hlost]
      refine iff_of_false nofun ?_
      rintro (hkept | rfl)
      · cases hkept
      · cases hlost.symm.trans hi

/-- The value of the option is the separator, which the current release refuses and an earlier one
loses. -/
example :
    let i : Invocation := {
      arguments := ["check".toList, ['a'], "--log-mode=--".toList]
      input := []
      environment := none
      moment := { date := ⟨2000, 1, 1⟩, time := ⟨0, 0, 0, 0⟩ }
      installed := true
      read := fun _ => .error .missing }
    i.run.exit = 2 ∧ i.losesMode = true := by
  decide +kernel

end Invocation

end DottedNames.Command
