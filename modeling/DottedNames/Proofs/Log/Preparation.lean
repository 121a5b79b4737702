import DottedNames.Proofs.Log.Line
import DottedNames.Proofs.Log.Output
import DottedNames.Proofs.Text.Quoting

/-!
# Preparing the pattern

The first step that uses the recognition pattern prepares it and reports that, before it reports
anything else; no later one does. Two things are put off until then: the pattern itself and the
installation of the sink, which asks the environment for a mode. So the record is handed over in
the state that the logger is ready in, and it is this state that decides whether its line is
written (`Session.Consistent.splitOn_lines_step`). What is recognised and found has nothing to do
with any of it.
-/

namespace DottedNames.Session

variable {s : Session} {t : Step} {r : LogRecord} {m : Moment} {b : Bool}

/-- Whether a step uses the recognition pattern. -/
def Step.usesPattern : Step → Bool
  | .recognize _ => true
  | .find _ => true
  | _ => false

/-- The record that a step was given. -/
def Step.given? : Step → Option LogRecord
  | .emit level message bs => some ⟨level, message.inserted, LogRecord.ownBindings bs⟩
  | .foreign level message bs => some ⟨level, message.inserted, bs⟩
  | _ => none

/-- The records that a run hands over in the steps that use the pattern, in order. -/
def reports (s : Session) : List Step → List LogRecord
  | [] => []
  | t :: steps =>
    (if t.usesPattern then t.records s.prepared else []) ++ (s.step t).1.reports steps

/-! ## The records of a step -/

theorem preparation_ne_discovery (d : Datum) (tokens : List Token) :
    preparation ≠ discovery d tokens := by
  intro h
  have hhead : preparation.message.head? = (discovery d tokens).message.head? := by rw [h]
  have hc : preparation.message.head? = some 'c' := rfl
  have hf : (discovery d tokens).message.head? = some 'f' := rfl
  rw [hc, hf] at hhead
  exact absurd (Option.some.inj hhead) (by decide)

/-- What a step hands over that uses the pattern when it is prepared already. -/
theorem records_true (ht : t.usesPattern = true) :
    t.records true = [] ∨ ∃ d tokens, t.records true = [discovery d tokens] := by
  cases t with
  | recognize d => exact .inl rfl
  | find d =>
    cases hd : d.tokens with
    | ok tokens => exact .inr ⟨d, tokens, by simp [Step.records, hd]⟩
    | error f => exact .inl (by simp [Step.records, hd])
  | _ => cases ht

theorem preparation_notMem_records_true (ht : t.usesPattern = true) :
    preparation ∉ t.records true := by
  rcases records_true ht with hnone | ⟨d, tokens, hone⟩
  · rw [hnone]
    exact List.not_mem_nil
  · rw [hone, List.mem_singleton]
    exact preparation_ne_discovery d tokens

/-- The record about the pattern comes first. -/
theorem records_of_usesPattern (ht : t.usesPattern = true) :
    t.records b = (if b then [] else [preparation]) ++ t.records true := by
  cases t with
  | recognize d => exact (List.append_nil _).symm
  | find d => rfl
  | _ => cases ht

theorem records_of_not_usesPattern (ht : t.usesPattern = false) :
    t.records b = t.given?.toList := by
  cases t with
  | recognize d => cases ht
  | find d => cases ht
  | _ => rfl

theorem eq_of_mem_records (ht : t.usesPattern = true) (hr : r ∈ t.records b) :
    r = preparation ∨ ∃ d tokens, r = discovery d tokens := by
  rw [records_of_usesPattern ht, List.mem_append] at hr
  rcases hr with hr | hr
  · cases b with
    | false => exact .inl (List.mem_singleton.1 hr)
    | true => cases hr
  · rcases records_true ht with hnone | ⟨d, tokens, hone⟩
    · rw [hnone] at hr
      cases hr
    · rw [hone] at hr
      exact .inr ⟨d, tokens, List.mem_singleton.1 hr⟩

theorem debug_of_mem_records (ht : t.usesPattern = true) (hr : r ∈ t.records b) :
    r.level = .debug ∧ LogRecord.isOwn r.bindings = true := by
  have hprepared : LogRecord.isOwn (LogRecord.ownBindings (action "compile_fqn_pattern")) = true :=
    by decide
  have hfound : LogRecord.isOwn (LogRecord.ownBindings (action "find_fqns")) = true := by decide
  rcases eq_of_mem_records ht hr with rfl | ⟨d, tokens, rfl⟩
  · exact ⟨rfl, hprepared⟩
  · exact ⟨rfl, hfound⟩

/-! ## Prepared once -/

theorem prepared_install {mode : LogMode} : (s.install mode).prepared = s.prepared := by
  unfold install
  split <;> rfl

theorem prepared_ensure : s.ensure.prepared = s.prepared := by
  unfold ensure
  split
  · rfl
  · exact prepared_install

/-- The pattern that is used once is used from then on. -/
theorem sharesPattern_eq_true (s : Session) : s.sharesPattern = true := by
  rw [sharesPattern, prepare]
  split
  · next hprepared => exact hprepared
  · rfl

theorem prepare_prepare (s : Session) : s.prepare.1.prepare = (s.prepare.1, []) :=
  if_pos s.sharesPattern_eq_true

theorem Consistent.prepared_step (hs : s.Consistent) (t : Step) :
    (s.step t).1.prepared = (s.prepared || t.usesPattern) := by
  have hset : ∀ d : Datum, (s.step (.set d)).1.prepared = s.prepared := by
    intro d
    simp only [Session.step]
    split
    · exact prepared_install
    · rfl
  cases t with
  | set d => rw [hset]; exact (Bool.or_false _).symm
  | configure d? =>
    cases d? with
    | none => exact prepared_install.trans (Bool.or_false _).symm
    | some d => exact (hset d).trans (Bool.or_false _).symm
  | fetch => exact prepared_ensure.trans (Bool.or_false _).symm
  | emit level message bs => exact prepared_ensure.trans (Bool.or_false _).symm
  | recognize d =>
    simp only [Session.step, Session.recognize, hs.prepare_eq]
    exact (Bool.or_true _).symm
  | find d =>
    simp only [Session.step, hs.find_eq]
    exact (Bool.or_true _).symm
  | _ => exact (Bool.or_false _).symm

theorem Consistent.prepared_run (hs : s.Consistent) (steps : List Step) :
    (s.run steps).prepared = (s.prepared || steps.any Step.usesPattern) := by
  induction steps generalizing s with
  | nil => exact (Bool.or_false _).symm
  | cons t steps ih =>
    show ((s.step t).1.run steps).prepared = _
    rw [ih (hs.step t), hs.prepared_step, List.any_cons, Bool.or_assoc]

/-- In a whole run the pattern is reported first and then no more, if it is used at all and was not
prepared before. -/
theorem Consistent.exists_reports_eq (hs : s.Consistent) (steps : List Step) :
    ∃ others, preparation ∉ others ∧ s.reports steps =
      (if s.prepared = false ∧ steps.any Step.usesPattern = true then [preparation] else []) ++
        others := by
  induction steps generalizing s with
  | nil => exact ⟨[], List.not_mem_nil, by simp [reports]⟩
  | cons t steps ih =>
    obtain ⟨others, hothers, heq⟩ := ih (hs.step t)
    rw [hs.prepared_step] at heq
    cases ht : t.usesPattern with
    | false =>
      refine ⟨others, hothers, ?_⟩
      rw [reports, heq, ht, List.any_cons, ht, Bool.or_false, Bool.false_or]
      rfl
    | true =>
      -- The pattern is prepared now, so the later steps do not report it.
      have hlater : (s.step t).1.reports steps = others := by
        rw [heq, ht, Bool.or_true]
        rfl
      refine ⟨t.records true ++ others, ?_, ?_⟩
      · rw [List.mem_append, not_or]
        exact ⟨preparation_notMem_records_true ht, hothers⟩
      · rw [reports, hlater, if_pos ht, records_of_usesPattern ht, List.append_assoc,
          List.any_cons, ht, Bool.true_or]
        cases s.prepared <;> rfl

/-! ## What is accepted -/

theorem shows_debug_iff {mode : LogMode} : mode.shows .debug = true ↔ mode = .debug := by
  cases mode <;> decide

/-- What a step that uses the pattern hands over is accepted in the mode for debugging, if there is
a sink, as soon as the logger is ready; otherwise nothing is. -/
theorem Consistent.written_of_usesPattern (hs : s.Consistent) (ht : t.usesPattern = true) :
    (s.step t).2.1 =
      if s.ensure.mode = .debug ∧ s.ensure.hub.sinks ≠ [] then
        (t.records s.prepared).map (Written.mk .debug)
      else [] := by
  have hready : (s.step t).2.1 = (t.records s.prepared).flatMap s.ensure.emit := by
    cases t with
    | recognize d =>
      simp only [Session.step, Session.recognize, hs.prepare_eq]
      rfl
    | find d => simp only [Session.step, hs.find_eq]
    | _ => cases ht
  rw [hready]
  split
  · next h =>
    have hall : ∀ r ∈ t.records s.prepared,
        (LogRecord.isOwn r.bindings && s.ensure.mode.shows r.level) = true := by
      intro r hr
      obtain ⟨hlevel, hown⟩ := debug_of_mem_records ht hr
      rw [hown, hlevel, shows_debug_iff.2 h.1]
      rfl
    rw [hs.ensure.flatMap_emit h.2, List.filter_eq_self.2 hall, h.1]
  · next h =>
    refine List.flatMap_eq_nil_iff.2 fun r hr => ?_
    obtain ⟨hlevel, -⟩ := debug_of_mem_records ht hr
    by_cases hsinks : s.ensure.hub.sinks = []
    · exact emit_of_sinks_eq_nil hsinks r
    · have hquiet : s.ensure.mode.shows r.level = false := by
        rw [hlevel, ← Bool.not_eq_true, shows_debug_iff]
        exact fun hmode => h ⟨hmode, hsinks⟩
      rw [hs.ensure.emit_of_sinks_ne_nil hsinks, hquiet, Bool.and_false]
      rfl

/-! ## Lines -/

theorem printable_preparation : preparation.message.Printable :=
  Text.printable_of_all_isVisibleAscii (by decide +kernel)

theorem printable_discovery (d : Datum) (tokens : List Token) :
    (discovery d tokens).message.Printable := by
  have hfound : Text.Printable "found ".toList := Text.printable_of_all_isVisibleAscii (by decide)
  have htokens : Text.Printable " fqn token(s) in ".toList :=
    Text.printable_of_all_isVisibleAscii (by decide)
  have hcharacters : Text.Printable " character(s)".toList :=
    Text.printable_of_all_isVisibleAscii (by decide)
  unfold discovery
  simp only [Text.printable_append]
  exact ⟨⟨⟨⟨hfound, Text.printable_ofNat _⟩, htokens⟩, Text.printable_ofNat _⟩, hcharacters⟩

theorem isLine_preparation {mode : LogMode} : (Written.mk mode preparation).IsLine :=
  Written.isLine_of_action (by decide) (by decide) (by decide) rfl
    printable_preparation.lineFeed_notMem

theorem isLine_discovery {mode : LogMode} (d : Datum) (tokens : List Token) :
    (Written.mk mode (discovery d tokens)).IsLine :=
  Written.isLine_of_action (by decide) (by decide) (by decide) rfl
    (printable_discovery d tokens).lineFeed_notMem

/-- The line about the pattern, without the line feed at its end. -/
def preparationLine (m : Moment) : Text :=
  m.time.text ++ " fqnkit:compile_fqn_pattern [DEBUG] ".toList ++ preparation.message

/-- The line that a record leaves which is accepted for debugging, without the line feed at its
end. -/
def debugLine (m : Moment) (r : LogRecord) : Text :=
  (Written.mk .debug r).heading m ++ r.message

theorem debugLine_preparation : debugLine m preparation = preparationLine m := by
  have horigin : LogRecord.origin preparation.bindings = "fqnkit:compile_fqn_pattern".toList :=
    LogRecord.origin_ownBindings_action (by decide)
  simp only [debugLine, Written.heading, horigin, preparationLine, List.append_assoc]
  rfl

theorem debugLine_discovery_ne (d : Datum) (tokens : List Token) :
    debugLine m (discovery d tokens) ≠ preparationLine m := by
  have horigin : LogRecord.origin (discovery d tokens).bindings = "fqnkit:find_fqns".toList :=
    LogRecord.origin_ownBindings_action (by decide)
  simp only [debugLine, Written.heading, horigin, preparationLine, List.append_assoc, ne_eq,
    List.append_cancel_left_eq]
  -- The origins differ in the first letter of the action.
  intro h
  have hletter : some 'f' = some 'c' := congrArg (fun l : Text => l[8]?) h
  exact absurd (Option.some.inj hletter) (by decide)

/-- The lines that a step writes which uses the pattern: the one about the pattern is the first of
them if the step is the first one to use it, the mode is that for debugging and there is a sink, and
it is none of them otherwise. -/
theorem Consistent.splitOn_lines_step (hs : s.Consistent) (ht : t.usesPattern = true) (m : Moment) :
    ∃ others, preparationLine m ∉ others ∧
      (Written.lines m (s.step t).2.1).splitOn '\n' =
        (if s.prepared = false ∧ s.ensure.mode = .debug ∧ s.ensure.hub.sinks ≠ [] then
          [preparationLine m] else []) ++ others := by
  have hnil : preparationLine m ∉ [[]] := by
    rw [List.mem_singleton, preparationLine, List.append_assoc]
    exact List.append_ne_nil_of_right_ne_nil _ (List.cons_ne_nil _ _)
  rw [hs.written_of_usesPattern ht]
  by_cases h : s.ensure.mode = .debug ∧ s.ensure.hub.sinks ≠ []
  · have hlines : ∀ w ∈ (t.records s.prepared).map (Written.mk .debug), w.IsLine := by
      intro w hw
      obtain ⟨r, hr, rfl⟩ := List.mem_map.1 hw
      rcases eq_of_mem_records ht hr with rfl | ⟨d, tokens, rfl⟩
      · exact isLine_preparation
      · exact isLine_discovery d tokens
    have hothers : preparationLine m ∉ (t.records true).map (debugLine m) := by
      rcases records_true ht with hnone | ⟨d, tokens, hone⟩
      · rw [hnone]
        exact List.not_mem_nil
      · rw [hone, List.map_singleton, List.mem_singleton]
        exact (debugLine_discovery_ne d tokens).symm
    refine ⟨(t.records true).map (debugLine m) ++ [[]], ?_, ?_⟩
    · rw [List.mem_append, not_or]
      exact ⟨hothers, hnil⟩
    · rw [if_pos h, Written.splitOn_lines hlines, List.map_map]
      show (t.records s.prepared).map (debugLine m) ++ [[]] = _
      rw [records_of_usesPattern ht, List.map_append, List.append_assoc]
      cases s.prepared with
      | false => simp [h, debugLine_preparation]
      | true => rfl
  · refine ⟨[[]], hnil, ?_⟩
    rw [if_neg h, if_neg fun hall => h hall.2]
    rfl

/-! ## Results -/

theorem result_step_recognize (s : Session) (d : Datum) :
    (s.step (.recognize d)).2.2 = (DottedNames.recognize d (.int 0)).map .recognized := rfl

theorem result_step_find (s : Session) (d : Datum) :
    (s.step (.find d)).2.2 = (d.tokens >>= namesOfTokens).map .names := by
  rw [step, find, tokens]
  cases d.tokens <;> rfl

/-- The pattern is prepared if and only if a step has used it, and then the logger was used as well.
Over a whole run, what the steps that use the pattern hand over starts with the record about it, and
this record is not handed over again. In particular the first of these steps hands it over once and
in front of everything else, and the later ones do not, whatever happened in between; the other
steps hand over nothing but what they were given. It is up to the sinks which of these records are
accepted. The line about the pattern is the first one of the first of these steps if the mode
is that for debugging and there is a sink once the logger is ready; otherwise it does not appear.
What is recognised or found is the same in any two states. -/
theorem pattern_reported_once (environment : Option Text) (steps : List Step) :
    let s := (initial environment).run steps
    let used := steps.any Step.usesPattern
    s.prepared = used ∧ (s.prepared = true → s.initialized = true) ∧
    (∃ others, preparation ∉ others ∧
      (initial environment).reports steps = (if used then [preparation] else []) ++ others) ∧
    (∀ t : Step, (s.step t).2.1 = (t.records s.prepared).flatMap (s.step t).1.emit) ∧
    (∀ t : Step, t.usesPattern = true →
      (∃ others, preparation ∉ others ∧
        t.records s.prepared = (if used then [] else [preparation]) ++ others) ∧
      ∀ m, ∃ others, preparationLine m ∉ others ∧
        (Written.lines m (s.step t).2.1).splitOn '\n' =
          (if used = false ∧ s.ensure.mode = .debug ∧ s.ensure.hub.sinks ≠ [] then
            [preparationLine m] else []) ++ others) ∧
    (∀ t : Step, t.usesPattern = false → t.records s.prepared = t.given?.toList) ∧
    ∀ (s₁ s₂ : Session) (d : Datum),
      (s₁.step (.recognize d)).2.2 = (s₂.step (.recognize d)).2.2 ∧
      (s₁.step (.find d)).2.2 = (s₂.step (.find d)).2.2 := by
  intro s used
  have hs : s.Consistent := consistent_run_initial environment steps
  have hprepared : s.prepared = used := (consistent_initial environment).prepared_run steps
  refine ⟨hprepared, hs.initialized_of_prepared, ?_, hs.written_step, fun t ht => ⟨?_, fun m => ?_⟩,
    fun t => records_of_not_usesPattern, fun s₁ s₂ d => ⟨?_, ?_⟩⟩
  · obtain ⟨others, hothers, heq⟩ := (consistent_initial environment).exists_reports_eq steps
    refine ⟨others, hothers, heq.trans ?_⟩
    have hinitial : (initial environment).prepared = false := rfl
    simp only [hinitial, true_and]
    rfl
  · rw [hprepared]
    exact ⟨_, preparation_notMem_records_true ht, records_of_usesPattern ht⟩
  · rw [← hprepared]
    exact hs.splitOn_lines_step ht m
  · rw [result_step_recognize, result_step_recognize]
  · rw [result_step_find, result_step_find]

/-- The hub is emptied and a setting is refused before names are looked for in an empty text in an
environment that asks for debugging; recognising a text later on reports nothing about the
pattern. -/
theorem pattern_reported_once_empty_text :
    let debug : Option Text := some "debug".toList
    let steps := [Step.removeAll, .set (.text "loud".toList)]
    let s := (initial debug).run steps
    let first := Step.find (.text [])
    let later := steps ++ [first, .removeAll, .configure (some (.text "info".toList))]
    let second := Step.recognize (.text ['a'])
    first.usesPattern = true ∧ second.usesPattern = true ∧
      (∀ m, ∃ others, preparationLine m ∉ others ∧
        (Written.lines m (s.step first).2.1).splitOn '\n' = [preparationLine m] ++ others) ∧
      ∃ others, preparation ∉ others ∧
        second.records ((initial debug).run later).prepared = others := by
  intro debug steps s first later second
  have hready : s.ensure.mode = .debug ∧ s.ensure.hub.sinks ≠ [] := by decide
  obtain ⟨-, -, -, -, hfirst, -⟩ := pattern_reported_once debug steps
  obtain ⟨-, -, -, -, hsecond, -⟩ := pattern_reported_once debug later
  refine ⟨rfl, rfl, fun m => ?_, (hsecond second rfl).1⟩
  obtain ⟨others, hothers, heq⟩ := (hfirst first rfl).2 m
  refine ⟨others, hothers, heq.trans ?_⟩
  rw [if_pos ⟨rfl, hready⟩]

end DottedNames.Session
