import DottedNames.Proofs.Script.Store
import DottedNames.Script

/-!
# What actions do

An action leaves the registers alone and only extends names: `Grows` says by which segments.
Everything that comes before the effect of an operation extends none at all and just makes new names
(`Extends`), so what an expression is worth does not change while an operation goes on.

`Gives` describes an action by what it gives or why it is refused. It is kept by `bind`, so that
each action is described by going through its parts, and both outcomes say what became of the state:
a refused action has extended no name.
-/

namespace DottedNames.Script

namespace Machine

variable {m m' m'' : Machine} {r : Text} {v : Value} {x : Operand} {h k : Handle} {q : QualName}
  {s : Segment} {ss : List Segment} {pushed pushed' : Handle → List Segment}

/-! ## Growth -/

/-- The registers of `m'` are those of `m`, and each name of `m` has been extended by the segments
that `pushed` gives for its handle. -/
structure Grows (m : Machine) (pushed : Handle → List Segment) (m' : Machine) : Prop where
  registers_eq : m'.registers = m.registers
  get?_eq : ∀ {h q}, m.store.get? h = some q → m'.store.get? h = some (q.extend (pushed h))

def unpushed : Handle → List Segment := fun _ => []

/-- Some segments for one handle and none for the others. -/
def onto (h : Handle) (ss : List Segment) : Handle → List Segment :=
  fun k => if k = h then ss else []

/-- The state `m'` has the registers and the names of `m`, and maybe more names. -/
def Extends (m m' : Machine) : Prop := m.Grows unpushed m'

theorem Extends.get?_eq (h : m.Extends m') {k : Handle} (hq : m.store.get? k = some q) :
    m'.store.get? k = some q := by
  have hgrown := Grows.get?_eq h hq
  rwa [unpushed, QualName.extend_nil] at hgrown

theorem extends_of_get?_eq (hr : m'.registers = m.registers)
    (hget : ∀ {h q}, m.store.get? h = some q → m'.store.get? h = some q) : m.Extends m' :=
  ⟨hr, fun hq => by rw [unpushed, QualName.extend_nil, hget hq]⟩

theorem Extends.refl (m : Machine) : m.Extends m := extends_of_get?_eq rfl id

theorem Grows.trans (h : m.Grows pushed m') (h' : m'.Grows pushed' m'') :
    m.Grows (fun k => pushed k ++ pushed' k) m'' :=
  ⟨h'.registers_eq.trans h.registers_eq, fun hq => by
    rw [h'.get?_eq (h.get?_eq hq), QualName.extend_extend]⟩

theorem Extends.trans_grows (h : m.Extends m') (h' : m'.Grows pushed m'') : m.Grows pushed m'' :=
  Grows.trans h h'

theorem Extends.trans (h : m.Extends m') (h' : m'.Extends m'') : m.Extends m'' :=
  h.trans_grows h'

theorem Grows.congr (h : m.Grows pushed m')
    (heq : ∀ {k q}, m.store.get? k = some q → pushed k = pushed' k) : m.Grows pushed' m' :=
  ⟨h.registers_eq, fun hq => by rw [← heq hq, h.get?_eq hq]⟩

theorem Grows.lookup?_eq (h : m.Grows pushed m') (r : Text) : m'.lookup? r = m.lookup? r := by
  rw [lookup?, h.registers_eq, lookup?]

theorem operand?_name :
    m.operand? (.name h) = some x ↔ ∃ q, m.store.get? h = some q ∧ x = .name q := by
  rw [operand?, Option.map_eq_some_iff]
  simp only [eq_comm]

theorem operand?_eq_some_name_iff :
    m.operand? v = some (.name q) ↔ ∃ h, v = .name h ∧ m.store.get? h = some q := by
  cases v <;> simp [operand?]

theorem Extends.operand?_eq (h : m.Extends m') (hx : m.operand? v = some x) :
    m'.operand? v = some x := by
  cases v with
  | name k =>
    obtain ⟨q, hq, rfl⟩ := operand?_name.1 hx
    exact operand?_name.2 ⟨q, h.get?_eq hq, rfl⟩
  | _ => exact hx

theorem operand_eq (hx : m.operand? v = some x) : m.operand v = x := by simp [operand, hx]

/-! ## Sound states -/

/-- The names share nothing, and there is a name behind every handle that a register holds. -/
structure Sound (m : Machine) : Prop where
  separated : m.store.Separated
  held : ∀ {r v}, m.lookup? r = some v → ∃ x, m.operand? v = some x

theorem sound_empty : empty.Sound := ⟨Store.separated_empty, fun h => by simp [lookup?, empty] at h⟩

theorem Grows.exists_operand? (h : m.Grows pushed m') (hx : m.operand? v = some x) :
    ∃ y, m'.operand? v = some y := by
  cases v with
  | name k =>
    obtain ⟨q, hq, -⟩ := operand?_name.1 hx
    exact ⟨_, operand?_name.2 ⟨_, h.get?_eq hq, rfl⟩⟩
  | _ => exact ⟨x, hx⟩

theorem Sound.of_grows (hm : m.Sound) (h : m.Grows pushed m') (hsep : m'.store.Separated) :
    m'.Sound := by
  refine ⟨hsep, fun hr => ?_⟩
  rw [h.lookup?_eq] at hr
  obtain ⟨x, hx⟩ := hm.held hr
  exact h.exists_operand? hx

def made (m : Machine) (q : QualName) : Machine := { m with store := (m.store.alloc q).1 }

theorem extends_made : m.Extends (m.made q) := extends_of_get?_eq rfl Store.get?_alloc_of_get?

theorem Sound.made (hm : m.Sound) : (m.made q).Sound :=
  hm.of_grows extends_made (hm.separated.alloc q)

def pushing (m : Machine) (h : Handle) (s : Segment) : Machine :=
  { m with store := m.store.push h s }

theorem Sound.grows_pushing (hm : m.Sound) : m.Grows (onto h [s]) (m.pushing h s) := by
  refine ⟨rfl, fun {k q} hq => ?_⟩
  by_cases hk : k = h
  · subst hk
    simp only [onto, if_true, QualName.extend_singleton]
    exact Store.get?_push_self hq
  · simp only [onto, if_neg hk, QualName.extend_nil]
    exact hm.separated.get?_push_of_ne hk hq

theorem Sound.pushing (hm : m.Sound) : (m.pushing h s).Sound :=
  hm.of_grows hm.grows_pushing (hm.separated.push h s)

/-- The state after segments were pushed one by one onto the name behind a handle. -/
def pushingAll (m : Machine) (h : Handle) (ss : List Segment) : Machine :=
  ss.foldl (fun m s => m.pushing h s) m

theorem Sound.pushingAll (hm : m.Sound) : (m.pushingAll h ss).Sound := by
  induction ss generalizing m with
  | nil => exact hm
  | cons s ss ih => exact ih hm.pushing

theorem Sound.grows_pushingAll (hm : m.Sound) : m.Grows (onto h ss) (m.pushingAll h ss) := by
  induction ss generalizing m with
  | nil =>
    refine Grows.congr (Extends.refl m) fun {k _} _ => ?_
    simp [onto, unpushed]
  | cons s ss ih =>
    refine (hm.grows_pushing.trans (ih hm.pushing)).congr fun {k _} _ => ?_
    by_cases hk : k = h <;> simp [onto, hk]

/-! ## Expressions -/

def worth (m : Machine) : Expr → Except Fault Operand
  | .datum d => .ok (.datum d)
  | .segment d => do return .segment (← (Operand.datum d).readSegment)
  | .name d => do return .name (← (Operand.datum d).readName)
  | .register r =>
    match m.lookup? r with
    | some v => .ok (m.operand v)
    | none => .error (.unknownRegister r)

/-- The handle that an expression takes from a register. -/
def handle? (m : Machine) : Expr → Option Handle
  | .register r =>
    match m.lookup? r with
    | some (.name h) => some h
    | _ => none
  | _ => none

theorem handle?_register : m.handle? (.register r) = some h ↔ m.lookup? r = some (.name h) := by
  simp only [handle?]
  split <;> simp_all

theorem exists_register_of_handle? {e : Expr} (he : m.handle? e = some h) :
    ∃ r, e = .register r ∧ m.lookup? r = some (.name h) := by
  cases e with
  | register r => exact ⟨r, rfl, handle?_register.1 he⟩
  | _ => cases he

theorem Sound.worth_eq (hm : m.Sound) (hext : m.Extends m') (e : Expr) :
    m'.worth e = m.worth e := by
  cases e with
  | register r =>
    rw [worth, worth, hext.lookup?_eq]
    split
    · next v hv =>
      obtain ⟨x, hx⟩ := hm.held hv
      rw [operand_eq hx, operand_eq (hext.operand?_eq hx)]
    · rfl
  | _ => rfl

/-- A value with a handle that is behind no name of `m`. -/
def Fresh (m : Machine) (v : Value) : Prop := ∀ h, v = .name h → m.store.get? h = none

theorem Extends.fresh (hext : m.Extends m') (hv : m'.Fresh v) : m.Fresh v := by
  intro h hh
  cases hq : m.store.get? h with
  | none => rfl
  | some q =>
    have hnone := hv h hh
    rw [hext.get?_eq hq] at hnone
    cases hnone

/-- The value `v` in the state `m'` is what the expression `e` stands for in the state `m`. -/
structure Denotes (m : Machine) (e : Expr) (m' : Machine) (v : Value) (x : Operand) : Prop where
  operand?_eq : m'.operand? v = some x
  eq_of_handle? : ∀ {h}, m.handle? e = some h → v = .name h
  fresh : m.handle? e = none → m.Fresh v

end Machine

/-! ## Running an action -/

namespace Action

variable {α β γ δ : Type} {m m' : Machine} {a : Action α} {k : α → Action β} {v : α} {f : Fault}

theorem run_bind_ok (h : a.run m = .ok v m') : (a >>= k).run m = (k v).run m' := by
  show EStateM.bind a k m = _
  rw [EStateM.bind, show a m = _ from h]
  rfl

theorem run_bind_error (h : a.run m = .error f m') : (a >>= k).run m = .error f m' := by
  show EStateM.bind a k m = _
  rw [EStateM.bind, show a m = _ from h]

end Action

/-- The action gives a value that stands in the relation `R` to what `out` says, or it is refused
with the fault that `out` says. In between names may have been made, and the names that there were
are extended by `pushed`, but only if the action is not refused. -/
inductive Gives {α β : Type} (m : Machine) (a : Action α) (pushed : Handle → List Segment)
    (R : Machine → α → β → Prop) : Except Fault β → Prop where
  | value {v m' x} (run : a.run m = .ok v m') (grows : m.Grows pushed m') (sound : m'.Sound)
      (rel : R m' v x) : Gives m a pushed R (.ok x)
  | refusal {f m'} (run : a.run m = .error f m') (kept : m.Extends m') (sound : m'.Sound) :
      Gives m a pushed R (.error f)

namespace Gives

open Machine

variable {α β γ δ : Type} {m m' : Machine} {a : Action α} {k : α → Action γ}
  {pushed pushed' : Handle → List Segment} {R : Machine → α → β → Prop}
  {S : Machine → γ → δ → Prop} {g : β → Except Fault δ} {out : Except Fault β}

/-- What comes after an action that gives a value, seen from the state before the action. -/
theorem after_value {v : α} {out : Except Fault δ} (hrun : a.run m = .ok v m')
    (hext : m.Extends m') (hk : Gives m' (k v) pushed S out) : Gives m (a >>= k) pushed S out := by
  cases hk with
  | value run grows sound rel =>
    exact .value ((Action.run_bind_ok hrun).trans run) (hext.trans_grows grows) sound rel
  | refusal run kept sound =>
    exact .refusal ((Action.run_bind_ok hrun).trans run) (hext.trans kept) sound

/-- One action after another, the first of which only makes names. -/
theorem bind (ha : Gives m a unpushed R out)
    (hk : ∀ {m' v x}, out = .ok x → m.Extends m' → m'.Sound → R m' v x →
      Gives m' (k v) pushed S (g x)) :
    Gives m (a >>= k) pushed S (out >>= g) := by
  cases ha with
  | value run grows sound rel => exact after_value run grows (hk rfl grows sound rel)
  | refusal run kept sound => exact .refusal (Action.run_bind_error run) kept sound

theorem ofExcept_bind {r : Except Fault α} (hm : m.Sound) {g : α → Except Fault δ}
    (hk : ∀ v, r = .ok v → Gives m (k v) pushed S (g v)) :
    Gives m (ofExcept r >>= k) pushed S (r >>= g) := by
  cases r with
  | ok v => exact after_value (a := ofExcept (.ok v)) rfl (.refl m) (hk v rfl)
  | error f => exact .refusal rfl (.refl m) hm

theorem pure (hm : m.Sound) {v : α} {x : β} (h : R m v x) :
    Gives m (Pure.pure v) unpushed R (.ok x) := .value rfl (Extends.refl m) hm h

theorem bind_pure {w : γ} {y : δ} (ha : Gives m a pushed R out)
    (hw : ∀ {m'}, S m' w y) :
    Gives m (a >>= fun _ => Pure.pure w) pushed S (out >>= fun _ => .ok y) := by
  cases ha with
  | value run grows sound rel => exact .value (Action.run_bind_ok run) grows sound hw
  | refusal run kept sound => exact .refusal (Action.run_bind_error run) kept sound

theorem congr (ha : Gives m a pushed R out)
    (heq : ∀ {k q}, m.store.get? k = some q → pushed k = pushed' k) : Gives m a pushed' R out := by
  cases ha with
  | value run grows sound rel => exact .value run (grows.congr heq) sound rel
  | refusal run kept sound => exact .refusal run kept sound

theorem imp {R' : Machine → α → β → Prop} (ha : Gives m a pushed R out)
    (hR : ∀ {m' v x}, R m' v x → R' m' v x) : Gives m a pushed R' out := by
  cases ha with
  | value run grows sound rel => exact .value run grows sound (hR rel)
  | refusal run kept sound => exact .refusal run kept sound

end Gives

namespace Action

open Machine

variable {m : Machine} {e : Expr}

/-! ## New names -/

/-- A result is worth what it was made from, and a name among the results is a new one. -/
theorem gives_give (hm : m.Sound) (x : Operand) :
    Gives m (give x) unpushed (fun m' v y => m'.operand? v = some y ∧ m.Fresh v) (.ok x) := by
  match x with
  | .designator (.name q) =>
    have hrun : (give (.name q)).run m = .ok (.name (m.store.alloc q).2) (m.made q) := rfl
    refine .value hrun extends_made hm.made ⟨?_, ?_⟩
    · exact operand?_name.2 ⟨q, Store.get?_alloc_self, rfl⟩
    · rintro h ⟨⟩
      exact Store.get?_alloc_fresh
  | .designator (.segment s) => exact .pure hm ⟨rfl, nofun⟩
  | .segments ss => exact .pure hm ⟨rfl, nofun⟩
  | .tuple ss => exact .pure hm ⟨rfl, nofun⟩
  | .datum d => exact .pure hm ⟨rfl, nofun⟩

theorem gives_ofExcept_give (hm : m.Sound) (r : Except Fault Operand) :
    Gives m (ofExcept r >>= give) unpushed (fun m' v y => m'.operand? v = some y ∧ m.Fresh v)
      r := by
  cases r with
  | ok x => exact .after_value (a := ofExcept (.ok x)) rfl (.refl m) (gives_give hm x)
  | error f => exact .refusal rfl (.refl m) hm

/-! ## Expressions -/

theorem run_eval_register (m : Machine) (r : Text) :
    (eval (.register r)).run m = match m.lookup? r with
      | some v => .ok v m
      | none => .error (.unknownRegister r) m := by
  show ((match m.lookup? r with
    | some v => pure v
    | none => throw (.unknownRegister r) : Action Value)).run m = _
  cases m.lookup? r <;> rfl

/-- The value of an expression is what the expression is worth; a name comes from a register or is
a new one. -/
theorem gives_eval (hm : m.Sound) (e : Expr) :
    Gives m (eval e) unpushed (m.Denotes e) (m.worth e) := by
  cases e with
  | datum d => exact .pure hm ⟨rfl, nofun, fun _ => nofun⟩
  | segment d => exact .ofExcept_bind hm fun s _ => .pure hm ⟨rfl, nofun, fun _ => nofun⟩
  | name d =>
    refine .ofExcept_bind hm fun q _ => (gives_give hm (.name q)).imp fun hv => ?_
    exact ⟨hv.1, nofun, fun _ => hv.2⟩
  | register r =>
    have hrun := run_eval_register m r
    cases hv : m.lookup? r with
    | none =>
      rw [hv] at hrun
      rw [show m.worth (.register r) = .error (.unknownRegister r) by simp [worth, hv]]
      exact .refusal hrun (.refl m) hm
    | some v =>
      rw [hv] at hrun
      obtain ⟨x, hx⟩ := hm.held hv
      rw [show m.worth (.register r) = .ok x by simp [worth, hv, operand_eq hx]]
      refine .value hrun (Extends.refl m) hm ⟨hx, fun hh => ?_, fun hnone h hh => ?_⟩
      · rw [handle?_register, hv] at hh
        exact Option.some.inj hh
      · rw [hh] at hv
        rw [handle?_register.2 hv] at hnone
        cases hnone

theorem gives_evalSegments (hm : m.Sound) (es : List Expr) :
    Gives m (evalSegments es) unpushed (fun _ ss ts => ss = ts)
      (es.mapM fun e => m.worth e >>= Operand.asSegment) := by
  induction es generalizing m with
  | nil => exact .pure hm rfl
  | cons e es ih =>
    rw [List.mapM_cons, bind_assoc]
    refine (gives_eval hm e).bind fun {m' v x} _ hext hm' hv => ?_
    refine Gives.after_value (a := get) rfl (.refl m') ?_
    rw [operand_eq hv.operand?_eq]
    refine .ofExcept_bind hm' fun s _ => ?_
    have hworth : m.worth = m'.worth := funext fun e => (hm.worth_eq hext e).symm
    rw [hworth]
    refine (ih hm').bind fun _ _ hm'' hss => ?_
    exact .pure hm'' (congrArg (s :: ·) hss)

end Action

end DottedNames.Script
