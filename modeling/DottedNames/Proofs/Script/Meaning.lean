import DottedNames.Proofs.Script.Evaluation

/-!
# What an operation means

The meaning of an operation is its result as an operand, or the fault it is refused with, and can be
read off what its expressions are worth, without making any name (`Machine.meaning`). Apart from new
names, an operation changes the state only by pushing onto the name that its first expression takes
from a register (`Machine.pushedBy`). The main statement `gives_perform` says that an operation does
just that, and that the result is a new name whenever it is a name.
-/

namespace DottedNames.Script

namespace Machine

variable {m m' : Machine} {x a : Operand} {h : Handle} {q : QualName} {s : Segment}

/-- The result that an operation of the given form has, as an operand. -/
def meaning (m : Machine) : Form → Except Fault Operand
  | .value e => m.worth e
  | .view on f => m.worth on >>= f
  | .viewPair on arg f => do
    let a ← m.worth arg
    let x ← m.worth on
    f x a
  | .collect args => do
    let ss ← args.mapM fun e => m.worth e >>= Operand.asSegment
    match QualName.ofSegments? ss with
    | some q => .ok (.name q)
    | none => .error .noSegments
  | .push on arg => do
    let a ← m.worth arg
    let x ← m.worth on
    let _ ← x.asName "push"
    let _ ← a.asSegment
    .ok (.datum .null)
  | .iteratePushing on => do
    let x ← m.worth on
    let items ← x.iterate
    if items.operands.isEmpty then .ok (.datum .null)
    else do
      let _ ← x.asName "push"
      .ok (.datum .null)

/-- The segment that an operand is, as a list that is empty for every other operand. -/
def segmentsOf : Operand → List Segment
  | .designator (.segment s) => [s]
  | _ => []

/-- The segments that `f` gives for the name that an expression takes from a register. -/
def through (m : Machine) (e : Expr) (f : QualName → List Segment) : Handle → List Segment :=
  match m.handle? e with
  | some h =>
    match m.store.get? h with
    | some q => onto h (f q)
    | none => unpushed
  | none => unpushed

/-- The segments that an operation of the given form pushes. -/
def pushedBy (m : Machine) : Form → Handle → List Segment
  | .push on arg =>
    match m.worth arg with
    | .ok a => m.through on fun _ => segmentsOf a
    | .error _ => unpushed
  | .iteratePushing on => m.through on QualName.segments
  | _ => unpushed

/-- The value `v` in the state `m'` is the result `x` of an operation that began in the state `m`; a
name among the results is a new one, unless the operation just hands over a value. -/
structure Yields (m : Machine) (form : Form) (m' : Machine) (v : Value) (x : Operand) : Prop where
  operand?_eq : m'.operand? v = some x
  fresh : (∀ e, form ≠ .value e) → m.Fresh v

theorem yields_nothing {form : Form} : m.Yields form m' Action.nothing (.datum .null) :=
  ⟨rfl, fun _ => nofun⟩

theorem meaning_iteratePushing {on : Expr} (hq : m.worth on = .ok (.name q)) :
    m.meaning (.iteratePushing on) = .ok (.datum .null) := by
  rw [meaning, hq]
  show (if (Items.segments q.segments).operands.isEmpty then _ else _) = _
  split <;> rfl

theorem Sound.exists_get?_of_handle? {e : Expr} (hm : m.Sound) (he : m.handle? e = some h) :
    ∃ q, m.store.get? h = some q := by
  obtain ⟨r, rfl, hr⟩ := exists_register_of_handle? he
  obtain ⟨x, hx⟩ := hm.held hr
  obtain ⟨q, hq, -⟩ := operand?_name.1 hx
  exact ⟨q, hq⟩

theorem Sound.through_eq (hm : m.Sound) (hext : m.Extends m') {e : Expr}
    {f : QualName → List Segment} : m'.through e f = m.through e f := by
  have hhandle : m'.handle? e = m.handle? e := by
    cases e with
    | register r => rw [handle?, handle?, hext.lookup?_eq]
    | _ => rfl
  rw [through, through, hhandle]
  split
  · next h hh =>
    obtain ⟨q, hq⟩ := hm.exists_get?_of_handle? hh
    rw [hq, hext.get?_eq hq]
  · rfl

theorem asSegment_eq_ok_iff : a.asSegment = .ok s ↔ a = .segment s := by
  unfold Operand.asSegment
  split
  · simp
  · next hne => simpa using fun ha => hne s ha

theorem segmentsOf_of_asSegment (ha : a.asSegment = .ok s) : segmentsOf a = [s] := by
  rw [asSegment_eq_ok_iff.1 ha, segmentsOf]

theorem asName_of_ne_name {v : Value} (hv : ∀ h, v ≠ .name h) (hx : m.operand? v = some x)
    (feature : String) : x.asName feature = .error (.noAttribute x.kind feature.toList) := by
  cases v with
  | name h => exact absurd rfl (hv h)
  | _ =>
    cases hx
    rfl

end Machine

namespace Action

open Machine

variable {m m' : Machine} {h : Handle} {q : QualName} {s : Segment} {ss : List Segment}
  {pushed pushed' : Handle → List Segment} {v : Value} {a x : Operand}

/-! ## Pushing -/

/-- Pushing through a handle extends the name behind it and no other one, or is refused because the
argument is no segment. -/
theorem gives_pushOnto_name (hm : m.Sound) (h : Handle) (a : Operand) :
    Gives m (pushOnto (.name h) a) (onto h (segmentsOf a)) (fun _ _ _ => True)
      (a.asSegment.map fun _ => ()) := by
  have hrun : (pushOnto (.name h) a).run m = (ofExcept a.asSegment >>= fun s =>
      modify fun m => { m with store := m.store.push h s } : Action Unit).run m := rfl
  cases ha : a.asSegment with
  | ok s =>
    rw [ha] at hrun
    have hpushed : (pushOnto (.name h) a).run m = .ok () (m.pushing h s) := hrun
    rw [segmentsOf_of_asSegment ha]
    exact .value hpushed hm.grows_pushing hm.pushing trivial
  | error f =>
    rw [ha] at hrun
    exact .refusal hrun (.refl m) hm

theorem run_pushOnto_of_ne_name (hv : ∀ h, v ≠ .name h) (hx : m.operand? v = some x) :
    (pushOnto v a).run m = .error (.noAttribute x.kind "push".toList) m := by
  rw [← operand_eq hx]
  cases v with
  | name h => exact absurd rfl (hv h)
  | _ => rfl

theorem run_forM_pushOnto (m : Machine) (h : Handle) (ss : List Segment) :
    ((ss.map Operand.segment).forM (pushOnto (.name h))).run m = .ok () (m.pushingAll h ss) := by
  induction ss generalizing m with
  | nil => rfl
  | cons s ss ih =>
    have hfirst : (pushOnto (.name h) (.segment s)).run m = .ok () (m.pushing h s) := rfl
    exact (run_bind_ok hfirst).trans (ih _)

theorem gives_forM_pushOnto_name (hm : m.Sound) (h : Handle) (ss : List Segment) :
    Gives m ((ss.map Operand.segment).forM (pushOnto (.name h))) (onto h ss) (fun _ _ _ => True)
      (.ok ()) :=
  .value (run_forM_pushOnto m h ss) hm.grows_pushingAll hm.pushingAll trivial

/-- What follows the evaluation of the expression an operation is applied to. If the expression is
worth a name, the rest may extend this name, which is seen only if it comes from a register. -/
theorem gives_eval_bind_through {γ δ : Type} {body : Value → Action γ} {f : QualName → List Segment}
    {S : Machine → γ → δ → Prop} {g : Operand → Except Fault δ} (hm : m.Sound) (on : Expr)
    (hname : ∀ {m' h q}, m.Extends m' → m'.Sound → m'.store.get? h = some q →
      Gives m' (body (.name h)) (onto h (f q)) S (g (.name q)))
    (hother : ∀ {m' v x}, m.Extends m' → m'.Sound → m'.operand? v = some x → (∀ h, v ≠ .name h) →
      Gives m' (body v) unpushed S (g x)) :
    Gives m (eval on >>= body) (m.through on f) S (m.worth on >>= g) := by
  have hon := gives_eval hm on
  generalize m.worth on = out at hon ⊢
  cases hon with
  | refusal run kept sound => exact .refusal (run_bind_error run) kept sound
  | @value v m' x run grows sound rel =>
    by_cases hv : ∃ h, v = .name h
    · obtain ⟨h, rfl⟩ := hv
      obtain ⟨q, hq, rfl⟩ := operand?_name.1 rel.operand?_eq
      refine (Gives.after_value run grows (hname grows sound hq)).congr fun {k p} hp => ?_
      cases hhandle : m.handle? on with
      | some h' =>
        cases rel.eq_of_handle? hhandle
        obtain ⟨q', hq'⟩ := hm.exists_get?_of_handle? hhandle
        have hqq : q = q' := Option.some.inj (hq.symm.trans (Extends.get?_eq grows hq'))
        simp [through, hhandle, hq', hqq]
      | none =>
        -- A name made by the evaluation is none of the names there were.
        have hk : k ≠ h := fun hkh => by
          rw [hkh, rel.fresh hhandle h rfl] at hp
          cases hp
        simp [through, hhandle, onto, unpushed, hk]
    · have hne : ∀ h, v ≠ .name h := fun h hvh => hv ⟨h, hvh⟩
      have hnone : m.handle? on = none := by
        cases hhandle : m.handle? on with
        | none => rfl
        | some h => exact absurd (rel.eq_of_handle? hhandle) (hne h)
      have hbody := hother grows sound rel.operand?_eq hne
      refine (Gives.after_value run grows hbody).congr fun _ => ?_
      simp [through, hnone]

/-! ## Operations -/

/-- An operation has the result that it means, pushes what it should and nothing else, and makes a
new name for a result that is a name, unless it just hands over a value. -/
theorem gives_perform (hm : m.Sound) (form : Form) :
    Gives m (perform form) (m.pushedBy form) (m.Yields form) (m.meaning form) := by
  cases form with
  | value e => exact (gives_eval hm e).imp fun hv => ⟨hv.operand?_eq, fun he => absurd rfl (he e)⟩
  | view on f =>
    refine (gives_eval hm on).bind fun {m' v x} _ hext hm' hv => ?_
    refine Gives.after_value (a := get) rfl (.refl m') ?_
    rw [operand_eq hv.operand?_eq]
    exact (gives_ofExcept_give hm' _).imp fun hw => ⟨hw.1, fun _ => hext.fresh hw.2⟩
  | viewPair on arg f =>
    refine (gives_eval hm arg).bind fun {m₁ a y} _ hext₁ hm₁ ha => ?_
    rw [← hm.worth_eq hext₁ on]
    refine (gives_eval hm₁ on).bind fun {m₂ v x} _ hext₂ hm₂ hv => ?_
    refine Gives.after_value (a := get) rfl (.refl m₂) ?_
    rw [operand_eq hv.operand?_eq, operand_eq (hext₂.operand?_eq ha.operand?_eq)]
    exact (gives_ofExcept_give hm₂ _).imp fun hw => ⟨hw.1, fun _ => (hext₁.trans hext₂).fresh hw.2⟩
  | collect args =>
    refine (gives_evalSegments hm args).bind fun {m' ss ts} _ hext hm' hss => ?_
    subst hss
    cases QualName.ofSegments? ss with
    | some q => exact (gives_give hm' (.name q)).imp fun hw => ⟨hw.1, fun _ => hext.fresh hw.2⟩
    | none => exact .refusal rfl (.refl m') hm'
  | push on arg =>
    refine (gives_eval hm arg).bind fun {m₁ v y} hworth hext₁ hm₁ ha => ?_
    have hpushed : m.pushedBy (.push on arg) = m₁.through on fun _ => segmentsOf y := by
      rw [hm.through_eq hext₁, pushedBy, hworth]
    rw [hpushed, ← hm.worth_eq hext₁ on]
    refine gives_eval_bind_through hm₁ on (fun {m₂ h q} hext₂ hm₂ _ => ?_)
      fun {m₂ w x} hext₂ hm₂ hx hne => ?_
    · refine Gives.after_value (a := get) rfl (.refl m₂) ?_
      rw [operand_eq (hext₂.operand?_eq ha.operand?_eq)]
      have hpush := (gives_pushOnto_name hm₂ h y).bind_pure (S := m.Yields (.push on arg))
        yields_nothing
      cases hy : y.asSegment <;> rw [hy] at hpush <;> exact hpush
    · rw [asName_of_ne_name hne hx]
      refine Gives.after_value (a := get) rfl (.refl m₂) ?_
      exact .refusal (run_bind_error (run_pushOnto_of_ne_name hne hx)) (.refl m₂) hm₂
  | iteratePushing on =>
    refine gives_eval_bind_through hm on (fun {m' h q} hext hm' hq => ?_)
      fun {m' v x} hext hm' hx hne => ?_
    · -- The segments that are pushed are those the name had before the first push.
      refine Gives.after_value (a := get) rfl (.refl m') ?_
      rw [operand_eq (operand?_name.2 ⟨q, hq, rfl⟩)]
      have hpush := (gives_forM_pushOnto_name hm' h q.segments).bind_pure
        (S := m.Yields (.iteratePushing on)) yields_nothing
      refine Gives.after_value (a := ofExcept (Operand.name q).iterate) rfl (.refl m') ?_
      show Gives m' _ _ _ (if (Items.segments q.segments).operands.isEmpty then _ else _)
      split
      · exact hpush
      · exact hpush
    · refine Gives.after_value (a := get) rfl (.refl m') ?_
      rw [operand_eq hx]
      refine .ofExcept_bind hm' fun items _ => ?_
      cases items.operands with
      | nil => exact .pure hm' yields_nothing
      | cons y ys =>
        rw [asName_of_ne_name hne hx]
        exact .refusal (run_bind_error (run_bind_error (run_pushOnto_of_ne_name hne hx))) (.refl m')
          hm'

end Action

end DottedNames.Script
