import DottedNames.Proofs.Script.Meaning

/-!
# What a step and a run change

A step has the result that its operation means. It extends names as its operation pushes onto them,
by nothing when it is refused, and it writes its target and no other register. A run of steps
extends each name by what the single steps push onto it (`Machine.pushedOnto`), and keeps the state
sound.
-/

namespace DottedNames.Script.Machine

variable {m m' : Machine} {r u : Text} {v : Value} {x : Operand} {h : Handle} {q : QualName}
  {t : Option Text} {s : Step} {steps : List Step} {f : Fault}

/-- What is seen through a register. -/
def view? (m : Machine) (r : Text) : Option Operand := (m.lookup? r).map m.operand

/-! ## Targets -/

theorem store_put : (m.put t v).store = m.store := by
  cases t <;> rfl

theorem operand?_put {w : Value} : (m.put t v).operand? w = m.operand? w := by
  cases w with
  | name h => rw [operand?, operand?, store_put]
  | _ => rfl

theorem lookup?_put_self : (m.put (some r) v).lookup? r = some v := by
  have hnone : (m.registers.filter (·.1 != r)).find? (·.1 == r) = none := by
    simp [List.find?_eq_none]
  simp [lookup?, put, List.find?_append, hnone]

theorem lookup?_put_of_ne (ht : t ≠ some r) : (m.put t v).lookup? r = m.lookup? r := by
  cases t with
  | none => rfl
  | some k =>
    have hk : k ≠ r := fun hkr => ht (congrArg some hkr)
    have hfilter : (m.registers.filter (·.1 != k)).find? (·.1 == r) =
        m.registers.find? (·.1 == r) := by
      rw [List.find?_filter]
      congr 1
      funext e
      by_cases he : e.1 = r
      · simp [he, hk.symm]
      · simp [he]
    simp [lookup?, put, List.find?_append, hfilter, hk]

theorem Sound.put (hm : m.Sound) (hv : m.operand? v = some x) (t : Option Text) :
    (m.put t v).Sound := by
  refine ⟨by rw [store_put]; exact hm.separated, fun {r w} hw => ?_⟩
  rw [operand?_put]
  by_cases ht : t = some r
  · subst ht
    rw [lookup?_put_self] at hw
    cases hw
    exact ⟨x, hv⟩
  · rw [lookup?_put_of_ne ht] at hw
    exact hm.held hw

/-! ## Steps -/

theorem step_of_perform (hrun : (Action.perform s.operation.form).run m = .ok v m') :
    m.step s = (m'.put s.target v, .ok v) := by
  have hstep : (Action.ofStep s).run m = .ok v (m'.put s.target v) := Action.run_bind_ok hrun
  rw [step, hstep]

/-- A step gives what its operation means and writes the target, or it is refused and writes
nothing. -/
theorem Sound.step_cases (hm : m.Sound) (s : Step) :
    (∃ m' v x, m.step s = (m'.put s.target v, .ok v) ∧
      m.Grows (m.pushedBy s.operation.form) m' ∧ m'.Sound ∧
      m.Yields s.operation.form m' v x ∧ m.meaning s.operation.form = .ok x) ∨
    ∃ m' f, m.step s = (m', .error f) ∧ m.Extends m' ∧ m'.Sound ∧
      m.meaning s.operation.form = .error f := by
  have hperform := Action.gives_perform hm s.operation.form
  generalize hmeaning : m.meaning s.operation.form = out at hperform ⊢
  cases hperform with
  | @value v m' x run grows sound rel =>
    exact .inl ⟨m', v, x, step_of_perform run, grows, sound, rel, rfl⟩
  | @refusal f m' run kept sound =>
    have hrun : (Action.ofStep s).run m = .error f m' := Action.run_bind_error run
    exact .inr ⟨m', f, by rw [step, hrun], kept, sound, rfl⟩

theorem Sound.step (hm : m.Sound) (s : Step) : (m.step s).1.Sound := by
  rcases hm.step_cases s with ⟨m', v, x, hstep, -, hm', hv, -⟩ | ⟨m', f, hstep, -, hm', -⟩
  · rw [hstep]
    exact hm'.put hv.operand?_eq s.target
  · rw [hstep]
    exact hm'

theorem Sound.worth_of_handle? {e : Expr} (hm : m.Sound) (he : m.handle? e = some h) :
    ∃ q, m.store.get? h = some q ∧ m.worth e = .ok (.name q) := by
  obtain ⟨q, hq⟩ := hm.exists_get?_of_handle? he
  obtain ⟨r, rfl, hr⟩ := exists_register_of_handle? he
  refine ⟨q, hq, ?_⟩
  rw [worth, hr]
  exact congrArg Except.ok (operand_eq (operand?_name.2 ⟨q, hq, rfl⟩))

theorem Sound.through_eq_unpushed (hm : m.Sound) {e : Expr} {g : QualName → List Segment}
    (hg : ∀ q, m.worth e = .ok (.name q) → g q = []) : m.through e g = unpushed := by
  unfold through
  split
  · next h hh =>
    obtain ⟨q, hq, hworth⟩ := hm.worth_of_handle? hh
    rw [hq]
    funext k
    simp [onto, unpushed, hg q hworth]
  · rfl

/-- A refused operation pushes nothing. -/
theorem Sound.pushedBy_of_refused (hm : m.Sound) {form : Form} (hf : m.meaning form = .error f) :
    m.pushedBy form = unpushed := by
  cases form with
  | push on arg =>
    cases ha : m.worth arg with
    | error g => rw [pushedBy, ha]
    | ok a =>
      rw [pushedBy, ha]
      refine hm.through_eq_unpushed fun q hq => ?_
      rw [meaning, ha, hq] at hf
      unfold segmentsOf
      split
      · cases hf
      · rfl
  | iteratePushing on =>
    refine hm.through_eq_unpushed fun q hq => ?_
    rw [meaning_iteratePushing hq] at hf
    cases hf
  | _ => rfl

/-- A step extends each name by what its operation pushes onto it. -/
theorem Sound.get?_step (hm : m.Sound) (s : Step) (hq : m.store.get? h = some q) :
    (m.step s).1.store.get? h = some (q.extend (m.pushedBy s.operation.form h)) := by
  rcases hm.step_cases s with ⟨m', v, x, hstep, hgrows, -, -, -⟩ | ⟨m', f, hstep, hext, -, hf⟩
  · rw [hstep, store_put, hgrows.get?_eq hq]
  · rw [hstep, hext.get?_eq hq, hm.pushedBy_of_refused hf, unpushed, QualName.extend_nil]

theorem Sound.lookup?_step_of_ne (hm : m.Sound) {s : Step} (ht : s.target ≠ some r) :
    (m.step s).1.lookup? r = m.lookup? r := by
  rcases hm.step_cases s with ⟨m', v, x, hstep, hgrows, -, -, -⟩ | ⟨m', f, hstep, hext, -, -⟩
  · rw [hstep, lookup?_put_of_ne ht, hgrows.lookup?_eq]
  · rw [hstep, hext.lookup?_eq]

/-! ## Views -/

theorem view?_of_lookup? (hv : m.lookup? r = some v) (hx : m.operand? v = some x) :
    m.view? r = some x := by
  simp [view?, hv, operand_eq hx]

theorem Sound.exists_handle_of_view? (hm : m.Sound) (hq : m.view? r = some (.name q)) :
    ∃ h, m.lookup? r = some (.name h) ∧ m.store.get? h = some q := by
  cases hv : m.lookup? r with
  | none => simp [view?, hv] at hq
  | some v =>
    obtain ⟨x, hx⟩ := hm.held hv
    rw [view?_of_lookup? hv hx] at hq
    cases hq
    obtain ⟨h, rfl, hget⟩ := operand?_eq_some_name_iff.1 hx
    exact ⟨h, rfl, hget⟩

theorem worth_of_view? (hx : m.view? r = some x) : m.worth (.register r) = .ok x := by
  unfold view? at hx
  cases hv : m.lookup? r with
  | none => simp [hv] at hx
  | some v =>
    rw [hv] at hx
    rw [worth, hv]
    exact congrArg Except.ok (Option.some.inj hx)

theorem Sound.result_eq_error_iff (hm : m.Sound) :
    (m.step s).2 = .error f ↔ m.meaning s.operation.form = .error f := by
  rcases hm.step_cases s with ⟨m', v, x, hstep, -, -, -, hx⟩ | ⟨m', g, hstep, -, -, hg⟩
  · rw [hstep, hx]
    simp
  · rw [hstep, hg]
    simp

/-- A step whose operation means an operand gives a value that is worth it, and the target holds the
value. -/
theorem Sound.exists_result (hm : m.Sound) (hx : m.meaning s.operation.form = .ok x) :
    ∃ v, (m.step s).2 = .ok v ∧ (m.step s).1.operand? v = some x ∧
      ∀ r, s.target = some r → (m.step s).1.lookup? r = some v := by
  rcases hm.step_cases s with ⟨m', v, y, hstep, -, -, hv, hy⟩ | ⟨m', f, -, -, -, hf⟩
  · rw [hy] at hx
    cases hx
    rw [hstep]
    refine ⟨v, rfl, operand?_put.trans hv.operand?_eq, fun r ht => ?_⟩
    rw [ht]
    exact lookup?_put_self
  · rw [hf] at hx
    cases hx

theorem Sound.view?_step_target (hm : m.Sound) (hx : m.meaning s.operation.form = .ok x)
    (ht : s.target = some r) : (m.step s).1.view? r = some x := by
  obtain ⟨v, -, hv, hheld⟩ := hm.exists_result hx
  exact view?_of_lookup? (hheld r ht) hv

theorem Sound.view?_step_name (hm : m.Sound) (ht : s.target ≠ some r)
    (hr : m.lookup? r = some (.name h)) (hq : m.store.get? h = some q) :
    (m.step s).1.view? r = some (.name (q.extend (m.pushedBy s.operation.form h))) :=
  view?_of_lookup? ((hm.lookup?_step_of_ne ht).trans hr)
    (operand?_name.2 ⟨_, hm.get?_step s hq, rfl⟩)

theorem Sound.view?_step_of_ne_name (hm : m.Sound) (ht : s.target ≠ some r)
    (hr : ∀ h, m.lookup? r ≠ some (.name h)) : (m.step s).1.view? r = m.view? r := by
  rw [view?, view?, hm.lookup?_step_of_ne ht]
  cases hv : m.lookup? r with
  | none => rfl
  | some v =>
    cases v with
    | name h => exact absurd hv (hr h)
    | _ => rfl

/-- An operation that pushes nothing onto what a register holds does not change what is seen through
the register. -/
theorem Sound.view?_step_of_unpushed (hm : m.Sound) (ht : s.target ≠ some r)
    (hpush : ∀ h, m.lookup? r = some (.name h) → m.pushedBy s.operation.form h = []) :
    (m.step s).1.view? r = m.view? r := by
  by_cases hr : ∃ h, m.lookup? r = some (.name h)
  · obtain ⟨h, hr⟩ := hr
    obtain ⟨x, hx⟩ := hm.held hr
    obtain ⟨q, hq, rfl⟩ := operand?_name.1 hx
    rw [hm.view?_step_name ht hr hq, hpush h hr, QualName.extend_nil, view?_of_lookup? hr hx]
  · exact hm.view?_step_of_ne_name ht fun h hh => hr ⟨h, hh⟩

/-! ## Answers -/

/-- The result of an operation, as the operand that it is at that moment. -/
def answer (m : Machine) (op : Operation) : Except Fault Operand :=
  match (Action.perform op.form).run m with
  | .ok v m' => .ok (m'.operand v)
  | .error f _ => .error f

theorem Sound.answer_eq (hm : m.Sound) (op : Operation) : m.answer op = m.meaning op.form := by
  have hperform := Action.gives_perform hm op.form
  generalize m.meaning op.form = out at hperform ⊢
  cases hperform with
  | value run grows sound rel =>
    rw [answer, run]
    exact congrArg Except.ok (operand_eq rel.operand?_eq)
  | refusal run kept sound => rw [answer, run]

/-- An operation that looks at one register is answered by what is seen through it. -/
theorem Sound.answer_view (hm : m.Sound) (hr : m.view? r = some x) {op : Operation}
    {g : Operand → Except Fault Operand} {out : Except Fault Operand}
    (hop : op.form = .view (.register r) g) (hg : g x = out) : m.answer op = out := by
  rw [hm.answer_eq, hop, meaning, worth_of_view? hr]
  exact hg

/-- An operation that looks at two values is answered by what its expressions are worth. -/
theorem Sound.answer_viewPair (hm : m.Sound) {on arg : Expr} {a : Operand}
    (hx : m.worth on = .ok x) (ha : m.worth arg = .ok a) {op : Operation}
    {g : Operand → Operand → Except Fault Operand} {out : Except Fault Operand}
    (hop : op.form = .viewPair on arg g) (hg : g x a = out) : m.answer op = out := by
  rw [hm.answer_eq, hop, meaning, ha, hx]
  exact hg

theorem Sound.answer_equal (hm : m.Sound) {y : Operand} (hr : m.view? r = some x)
    (hu : m.view? u = some y) :
    m.answer (.equal (.register r) (.register u)) = .ok (.datum (.bool (x.same y))) :=
  hm.answer_viewPair (worth_of_view? hr) (worth_of_view? hu) rfl rfl

theorem Sound.answer_parent (hm : m.Sound) (hq : m.view? r = some (.name q)) :
    m.answer (.parent (.register r)) = .ok (.ofName? q.parent?) :=
  hm.answer_view hq rfl rfl

theorem Sound.answer_isSimple (hm : m.Sound) (hq : m.view? r = some (.name q)) :
    m.answer (.isSimple (.register r)) = .ok (.datum (.bool q.isSimple)) :=
  hm.answer_view hq rfl rfl

theorem Sound.answer_parts (hm : m.Sound) (hq : m.view? r = some (.name q)) :
    m.answer (.parts (.register r)) = .ok (.tuple q.segments) :=
  hm.answer_view hq rfl rfl

theorem Sound.answer_length (hm : m.Sound) (hq : m.view? r = some (.name q)) :
    m.answer (.length (.register r)) = .ok (.datum (.int q.length)) :=
  hm.answer_view hq rfl rfl

theorem Sound.answer_leaf (hm : m.Sound) (hq : m.view? r = some (.name q)) :
    m.answer (.leaf (.register r)) = .ok (.segment q.leaf) :=
  hm.answer_view hq rfl rfl

/-! ## Runs -/

/-- The segments that the steps of a script push onto the name behind a handle. -/
def pushedOnto (m : Machine) (h : Handle) : List Step → List Segment
  | [] => []
  | s :: steps => m.pushedBy s.operation.form h ++ (m.step s).1.pushedOnto h steps

theorem run_cons : m.run (s :: steps) = (m.step s).1.run steps := rfl

theorem run_append {steps' : List Step} : m.run (steps ++ steps') = (m.run steps).run steps' :=
  List.foldl_append

theorem Sound.run (hm : m.Sound) (steps : List Step) : (m.run steps).Sound := by
  induction steps generalizing m with
  | nil => exact hm
  | cons s steps ih => exact ih (hm.step s)

/-- A script extends each name by what its steps push onto it. -/
theorem Sound.get?_run (hm : m.Sound) (steps : List Step) (hq : m.store.get? h = some q) :
    (m.run steps).store.get? h = some (q.extend (m.pushedOnto h steps)) := by
  induction steps generalizing m q with
  | nil => rw [pushedOnto, QualName.extend_nil, Machine.run, List.foldl_nil, hq]
  | cons s steps ih =>
    rw [run_cons, ih (hm.step s) (hm.get?_step s hq), QualName.extend_extend, pushedOnto]

theorem Sound.lookup?_run_of_forall_ne (hm : m.Sound) (ht : ∀ s ∈ steps, s.target ≠ some r) :
    (m.run steps).lookup? r = m.lookup? r := by
  induction steps generalizing m with
  | nil => rfl
  | cons s steps ih =>
    rw [run_cons, ih (hm.step s) fun s' hs' => ht s' (List.mem_cons_of_mem s hs'),
      hm.lookup?_step_of_ne (ht s List.mem_cons_self)]

/-- Whatever steps were done before, also refused ones, the state is sound. -/
theorem sound_run_empty (steps : List Step) : (empty.run steps).Sound := sound_empty.run steps

end DottedNames.Script.Machine
