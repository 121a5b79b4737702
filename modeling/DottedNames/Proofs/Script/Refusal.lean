import DottedNames.Proofs.Script.Run

/-!
# Refused steps

An operation evaluates its argument, then what it is applied to, and then checks what it got. The
parts that may be refused are listed here in that order (`Machine.stages`), and the fault of a
refused step is that of the first one of them that is refused. A refused step changes no register
and no name, even if the parts before the refusal made names.
-/

namespace DottedNames.Script

/-- The fault of an evaluation that is refused. -/
def fault? {α : Type} : Except Fault α → Option Fault
  | .ok _ => none
  | .error f => some f

/-- The first fault among those of several parts. -/
def firstFault (faults : List (Option Fault)) : Option Fault := faults.findSome? id

section

variable {α β : Type} {f : Fault} {o : Option Fault} {faults faults' : List (Option Fault)}

@[simp] theorem firstFault_nil : firstFault [] = none := rfl

@[simp] theorem firstFault_cons : firstFault (o :: faults) = o.or (firstFault faults) := by
  cases o <;> rfl

theorem firstFault_append :
    firstFault (faults ++ faults') = (firstFault faults).or (firstFault faults') := by
  simp [firstFault, List.findSome?_append]

theorem firstFault_eq_some_iff :
    firstFault faults = some f ↔
      ∃ earlier later, faults = earlier ++ some f :: later ∧ ∀ o ∈ earlier, o = none := by
  simp [firstFault, List.findSome?_eq_some_iff]

theorem fault?_eq_some_iff {out : Except Fault α} : fault? out = some f ↔ out = .error f := by
  cases out <;> simp [fault?]

/-- What is made of the outcome of a check does not matter. -/
@[simp] theorem fault?_map {out : Except Fault α} {g : α → β} :
    fault? (g <$> out) = fault? out := by
  cases out <;> rfl

end

/-- Whether everything that going through an operand yields can be pushed onto the operand. -/
def checkPushes (x : Operand) : Except Fault Unit :=
  match x.iterate with
  | .ok items => if items.operands.isEmpty then .ok () else (x.asName "push").map fun _ => ()
  | .error _ => .ok ()

namespace Machine

/-- Why an expression has no value. -/
def building (m : Machine) (e : Expr) : Option Fault := fault? (m.worth e)

/-- Why the value of an expression, if there is one, does not pass a check. -/
def checking {α : Type} (m : Machine) (e : Expr) (check : Operand → Except Fault α) :
    Option Fault :=
  match m.worth e with
  | .ok x => fault? (check x)
  | .error _ => none

/-- Why the values of two expressions, if there are both, do not pass a check. -/
def checkingPair {α : Type} (m : Machine) (on arg : Expr)
    (check : Operand → Operand → Except Fault α) : Option Fault :=
  match m.worth on, m.worth arg with
  | .ok x, .ok a => fault? (check x a)
  | _, _ => none

/-- The parts of an operation that may be refused, in the order in which they are done, each with
the fault it is refused with. -/
def stages (m : Machine) : Operation → List (Option Fault)
  | .value arg | .tryReadName arg | .tryReadSegment arg => [m.building arg]
  | .readName arg => [m.building arg, m.checking arg Operand.readName]
  | .readSegment arg => [m.building arg, m.checking arg Operand.readSegment]
  | .ofSegment arg => [m.building arg, m.checking arg Operand.asSegment]
  | .ofSegments args =>
    args.flatMap (fun e => [m.building e, m.checking e Operand.asSegment]) ++
      [if args.isEmpty then some .noSegments else none]
  | .push on arg =>
    [m.building arg, m.building on, m.checking on (·.asName "push"),
      m.checking arg Operand.asSegment]
  | .child on arg =>
    [m.building arg, m.building on, m.checking on (·.asName "child"),
      m.checking arg Operand.asSegment]
  | .parent on => [m.building on, m.checking on (·.asName "parent")]
  | .copy on => [m.building on, m.checking on Operand.copy]
  | .duplicate on => [m.building on]
  | .leaf on => [m.building on, m.checking on (·.asName "leaf")]
  | .isSimple on => [m.building on, m.checking on (·.asName "is_simple")]
  | .toSegment on => [m.building on, m.checking on (·.asName "as_simple_name")]
  | .text on | .describe on => [m.building on, m.checking on (·.asName "as_string")]
  | .parts on => [m.building on, m.checking on (·.asName "parts")]
  | .length on => [m.building on, m.checking on Operand.length]
  | .iterate on => [m.building on, m.checking on Operand.iterate]
  | .iteratePushing on => [m.building on, m.checking on Operand.iterate, m.checking on checkPushes]
  | .contains on arg => [m.building arg, m.building on, m.checkingPair on arg Operand.contains]
  | .sameHash on arg =>
    [m.building arg, m.building on, m.checking on Operand.hashKey, m.checking arg Operand.hashKey]
  | .equal on arg | .unequal on arg => [m.building arg, m.building on]
  | .related r on arg =>
    [m.building arg, m.building on, m.checkingPair on arg (Operand.related r)]

/-! ## The first refusal -/

variable {α β γ : Type} {m : Machine} {on arg e : Expr} {s : Step} {f : Fault}

theorem fault?_meaning_view (check : Operand → Except Fault Operand) :
    fault? (m.meaning (.view on check)) = (m.building on).or (m.checking on check) := by
  rw [meaning, building, checking]
  cases m.worth on <;> rfl

theorem fault?_meaning_viewPair (check : Operand → Operand → Except Fault Operand) :
    fault? (m.meaning (.viewPair on arg check)) =
      (m.building arg).or ((m.building on).or (m.checkingPair on arg check)) := by
  rw [meaning, building, building, checkingPair]
  cases m.worth arg <;> cases m.worth on <;> rfl

@[simp] theorem checking_map {check : Operand → Except Fault α} {g : α → β} :
    m.checking e (fun x => g <$> check x) = m.checking e check := by
  simp [checking]

@[simp] theorem checking_pure {g : Operand → α} : m.checking e (fun x => pure (g x)) = none := by
  rw [checking]
  cases m.worth e <;> rfl

@[simp] theorem checkingPair_map {check : Operand → Operand → Except Fault α} {g : α → β} :
    m.checkingPair on arg (fun x a => g <$> check x a) = m.checkingPair on arg check := by
  simp [checkingPair]

@[simp] theorem checkingPair_pure {g : Operand → Operand → α} :
    m.checkingPair on arg (fun x a => pure (g x a)) = none := by
  rw [checkingPair]
  cases m.worth on <;> cases m.worth arg <;> rfl

/-- Two checks on two values are done one after the other, once both values are there. -/
theorem or_checkingPair_bind {check : Operand → Except Fault α} {check' : Operand → Except Fault β}
    {g : α → β → γ} :
    (m.building arg).or ((m.building on).or (m.checkingPair on arg fun x a =>
        check x >>= fun v => g v <$> check' a)) =
      (m.building arg).or
        ((m.building on).or ((m.checking on check).or (m.checking arg check'))) := by
  rw [building, building, checking, checking, checkingPair]
  cases m.worth arg with
  | error f => rfl
  | ok a =>
    cases m.worth on with
    | error f => rfl
    | ok x =>
      show fault? (check x >>= fun v => g v <$> check' a) =
        (fault? (check x)).or (fault? (check' a))
      cases check x with
      | error f => rfl
      | ok v => exact fault?_map

/-- Segments are collected from the first expression to the last, each of which is checked before
the next one is evaluated. -/
theorem fault?_mapM (args : List Expr) :
    fault? (args.mapM fun e => m.worth e >>= Operand.asSegment) =
      firstFault (args.flatMap fun e => [m.building e, m.checking e Operand.asSegment]) := by
  induction args with
  | nil => rfl
  | cons e es ih =>
    rw [List.mapM_cons, List.flatMap_cons, List.cons_append, List.cons_append, List.nil_append,
      firstFault_cons, firstFault_cons, ← ih, building, checking]
    cases m.worth e with
    | error f => rfl
    | ok x =>
      show fault? (x.asSegment >>= fun s => _ >>= fun ss => pure (s :: ss)) =
        (fault? x.asSegment).or _
      cases x.asSegment with
      | error f => rfl
      | ok s =>
        simp only [bind_pure_comp]
        exact fault?_map

theorem ne_nil_of_mapM {check : Expr → Except Fault α} {es : List Expr} {vs : List α}
    (h : (e :: es).mapM check = .ok vs) : vs ≠ [] := by
  rintro rfl
  rw [List.mapM_cons] at h
  cases hv : check e with
  | error f =>
    rw [hv] at h
    cases h
  | ok v =>
    cases hvs : es.mapM check with
    | error f =>
      rw [hv, hvs] at h
      cases h
    | ok vs =>
      rw [hv, hvs] at h
      cases h

theorem fault?_meaning_collect (args : List Expr) :
    fault? (m.meaning (.collect args)) =
      (firstFault (args.flatMap fun e => [m.building e, m.checking e Operand.asSegment])).or
        (if args.isEmpty then some .noSegments else none) := by
  rw [← fault?_mapM, meaning]
  cases args with
  | nil => rfl
  | cons e es =>
    cases hss : (e :: es).mapM fun e => m.worth e >>= Operand.asSegment with
    | error f => rfl
    | ok ss =>
      obtain ⟨b, bs, rfl⟩ := List.exists_cons_of_ne_nil (ne_nil_of_mapM hss)
      rfl

theorem fault?_meaning_iteratePushing :
    fault? (m.meaning (.iteratePushing on)) =
      (m.building on).or ((m.checking on Operand.iterate).or (m.checking on checkPushes)) := by
  rw [meaning, building, checking, checking]
  cases m.worth on with
  | error f => rfl
  | ok x =>
    show fault? (x.iterate >>= _) = (fault? x.iterate).or (fault? (checkPushes x))
    unfold checkPushes
    cases x.iterate with
    | error f => rfl
    | ok items =>
      show fault? (if items.operands.isEmpty then _ else _) = fault? (if _ then _ else _)
      split
      · rfl
      · cases x.asName "push" <;> rfl

/-- The fault of an operation is that of its first stage that is refused. -/
theorem fault?_meaning (op : Operation) :
    fault? (m.meaning op.form) = firstFault (m.stages op) := by
  cases op with
  | value arg => simp [Operation.form, meaning, stages, building]
  | ofSegments args =>
    rw [Operation.form, fault?_meaning_collect, stages, firstFault_append, firstFault_cons,
      firstFault_nil, Option.or_none]
  | push on arg =>
    have hform : m.meaning (.push on arg) = m.meaning (.viewPair on arg fun x a =>
        x.asName "push" >>= fun _ => (fun _ => .datum .null) <$> a.asSegment) := rfl
    rw [Operation.form, hform, fault?_meaning_viewPair, or_checkingPair_bind]
    simp [stages]
  | child on arg =>
    simp [Operation.form, stages, fault?_meaning_viewPair, or_checkingPair_bind]
  | sameHash on arg =>
    simp [Operation.form, stages, fault?_meaning_viewPair, Operand.sameHash, or_checkingPair_bind]
  | iteratePushing on => simp [Operation.form, stages, fault?_meaning_iteratePushing]
  | duplicate on =>
    have hpure : m.checking on (fun x => pure x) = none := checking_pure
    simp [Operation.form, stages, fault?_meaning_view, hpure]
  | _ => simp [Operation.form, stages, fault?_meaning_view, fault?_meaning_viewPair]

/-! ## What a refused step changes -/

theorem Sound.extends_of_refused (hm : m.Sound) (hf : (m.step s).2 = .error f) :
    m.Extends (m.step s).1 := by
  rcases hm.step_cases s with ⟨m', v, x, hstep, -, -, -, -⟩ | ⟨m', g, hstep, hext, -, -⟩
  · rw [hstep] at hf
    cases hf
  · rw [hstep]
    exact hext

theorem Sound.view?_eq (hm : m.Sound) {m' : Machine} (hext : m.Extends m') (r : Text) :
    m'.view? r = m.view? r := by
  cases hv : m.lookup? r with
  | none => rw [view?, view?, hext.lookup?_eq, hv]; rfl
  | some v =>
    obtain ⟨x, hx⟩ := hm.held hv
    rw [view?_of_lookup? hv hx]
    exact view?_of_lookup? ((hext.lookup?_eq r).trans hv) (hext.operand?_eq hx)

/-- In every state that a script leads to, a step is refused with the fault of the first of its
parts that is refused, and only then. What the registers hold, its target among them, and every name
are then as before. -/
theorem refused_step_changes_nothing (before : List Step) (s : Step) (f : Fault) :
    let m := empty.run before
    ((m.step s).2 = .error f ↔
      ∃ earlier later, m.stages s.operation = earlier ++ some f :: later ∧
        ∀ o ∈ earlier, o = none) ∧
    ((m.step s).2 = .error f →
      (m.step s).1.registers = m.registers ∧
      (∀ r, (m.step s).1.view? r = m.view? r) ∧
      ∀ h q, m.store.get? h = some q → (m.step s).1.store.get? h = some q) := by
  intro m
  have hm : m.Sound := sound_run_empty before
  constructor
  · rw [hm.result_eq_error_iff, ← fault?_eq_some_iff, fault?_meaning, firstFault_eq_some_iff]
  · intro hf
    have hext : m.Extends (m.step s).1 := hm.extends_of_refused hf
    exact ⟨hext.registers_eq, fun r => hm.view?_eq hext r, fun h q hq => hext.get?_eq hq⟩

/-- The second item is a name, which is made before it is found to be no segment; the third item is
not looked at. -/
theorem refused_step_changes_nothing_collecting :
    let m := empty.run [⟨.readName (.datum (.text ['a'])), some ['x']⟩]
    let s : Step := ⟨.ofSegments [.segment (.text ['b']), .name (.text ['c']), .register ['y']],
      some ['x']⟩
    (m.step s).2 = .error (.segmentExpected .name) ∧ (m.step s).1.store.names ≠ m.store.names ∧
      (m.step s).1.registers = m.registers ∧ (m.step s).1.view? ['x'] = m.view? ['x'] := by
  intro m s
  have hf : (m.step s).2 = .error (.segmentExpected .name) := rfl
  have hmade : (m.step s).1.store.names ≠ m.store.names := by decide +kernel
  obtain ⟨hregisters, hviews, -⟩ :=
    (refused_step_changes_nothing [⟨.readName (.datum (.text ['a'])), some ['x']⟩] s _).2 hf
  exact ⟨hf, hmade, hregisters, hviews ['x']⟩

end Machine

end DottedNames.Script
