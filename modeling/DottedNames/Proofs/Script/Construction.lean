import DottedNames.Proofs.Script.Aliasing
import DottedNames.Proofs.Script.Held

/-!
# Ways to make a name

A name of given segments is made by collecting the segments, by pushing them one by one onto the
name of the first one, by making a child for each of them, or by reading them with dots in between.
All four succeed and leave equal names behind; and reading and writing are inverse to each other.
-/

namespace DottedNames.Script

/-- The expression that writes a segment down. -/
def Expr.ofSegment (s : Segment) : Expr := .segment (.text s.text)

/-- Make a name of one segment in a register. -/
abbrev Step.makeOf (r : Text) (a : Segment) : Step := ⟨.ofSegment (.ofSegment a), some r⟩

/-- Push a segment onto the name in a register. -/
abbrev Step.pushOnto (r : Text) (a : Segment) : Step := ⟨.push (.register r) (.ofSegment a), none⟩

/-- Put a child of the name in a register into the same register. -/
abbrev Step.replaceByChild (r : Text) (a : Segment) : Step :=
  ⟨.child (.register r) (.ofSegment a), some r⟩

/-- A way to make a name of its segments. -/
inductive Construction where
  /-- The segments are collected. -/
  | collecting
  /-- The first segment is made a name, onto which the others are pushed. -/
  | pushing
  /-- The first segment is made a name, which is replaced by its child for each of the others. -/
  | extending
  /-- The segments are read from a text with dots between them. -/
  | reading

/-- The steps that make a name of the segments `a :: ss` in a register. -/
def Construction.steps (r : Text) (a : Segment) (ss : List Segment) : Construction → List Step
  | .collecting => [⟨.ofSegments ((a :: ss).map .ofSegment), some r⟩]
  | .pushing => Step.makeOf r a :: ss.map (Step.pushOnto r)
  | .extending => Step.makeOf r a :: ss.map (Step.replaceByChild r)
  | .reading =>
    [⟨.readName (.datum (.text (Text.join ['.'] ((a :: ss).map Segment.text)))), some r⟩]

namespace Machine

variable {m m' m'' : Machine} {r u : Text} {q p : QualName} {s : Step} {a : Segment}
  {ss : List Segment}

/-! ## A name in a register of its own -/

/-- The register `r` shows the name `q` in the state `m'`, no other register holds this name, and
the other registers show what they showed in the state `m`. -/
structure Shows (m : Machine) (r : Text) (q : QualName) (m' : Machine) : Prop where
  sound : m'.Sound
  view?_eq : m'.view? r = some (.name q)
  view?_of_ne : ∀ {u}, u ≠ r → m'.view? u = m.view? u
  unshared : ∀ {u}, u ≠ r → m'.lookup? u ≠ m'.lookup? r

theorem Shows.trans (h : m.Shows r q m') (h' : m'.Shows r p m'') : m.Shows r p m'' where
  sound := h'.sound
  view?_eq := h'.view?_eq
  view?_of_ne hu := (h'.view?_of_ne hu).trans (h.view?_of_ne hu)
  unshared := h'.unshared

/-- A step that makes a name and pushes nothing leaves the name in its target. -/
theorem Sound.shows_step (hm : m.Sound) (ht : s.target = some r)
    (hvalue : ∀ e, s.operation ≠ .value e) (hpush : ∀ u, ¬ s.operation.PushesVia u)
    (hq : m.meaning s.operation.form = .ok (.name q)) :
    (∃ v, (m.step s).2 = .ok v) ∧ m.Shows r q (m.step s).1 := by
  obtain ⟨v, hv, hworth, hheld⟩ := hm.exists_result hq
  obtain ⟨h, rfl, -⟩ := operand?_eq_some_name_iff.1 hworth
  have hfresh : m.store.get? h = none := hm.get?_result hvalue hv
  have htarget : ∀ {u}, u ≠ r → s.target ≠ some u := by
    intro u hu hsu
    exact hu (Option.some.inj (hsu.symm.trans ht))
  refine ⟨⟨_, hv⟩, hm.step s, hm.view?_step_target hq ht, fun {u} hu => ?_, fun {u} hu => ?_⟩
  · by_contra hne
    obtain ⟨w, -, -, -, hvia⟩ := hm.exists_pushesVia_of_view?_ne (htarget hu) hne
    exact hpush w hvia
  · -- What another register holds was there before.
    intro hsame
    rw [hheld r ht, hm.lookup?_step_of_ne (htarget hu)] at hsame
    obtain ⟨x, hx⟩ := hm.held hsame
    obtain ⟨p, hp, -⟩ := operand?_name.1 hx
    rw [hfresh] at hp
    cases hp

theorem forall_mem_trace_cons {P : Machine × Except Fault Value → Prop} {steps : List Step} :
    (∀ out ∈ m.trace (s :: steps), P out) ↔
      P (m.step s) ∧ ∀ out ∈ (m.step s).1.trace steps, P out :=
  List.forall_mem_cons

/-! ## One segment after another -/

theorem worth_ofSegment (m : Machine) (a : Segment) :
    m.worth (.ofSegment a) = .ok (.segment a) := by
  have hparse : Segment.parse a.text = .ok a := by simp [Segment.parse]
  show ((Segment.parse a.text).mapError _ >>= _) = _
  rw [hparse]
  rfl

theorem Shows.push (h : m.Shows r q m') (a : Segment) :
    (∃ v, (m'.step (.pushOnto r a)).2 = .ok v) ∧
      m.Shows r (q.push a) (m'.step (.pushOnto r a)).1 := by
  obtain ⟨k, hk, -⟩ := h.sound.exists_handle_of_view? h.view?_eq
  have hpush : m'.PushesThrough r q (Step.pushOnto r a).operation [a] :=
    .push (m'.worth_ofSegment a)
  have hmeaning := hpush.meaning_eq h.view?_eq
  obtain ⟨v, hv, -, -⟩ := h.sound.exists_result hmeaning
  have hlookup : ∀ u, (m'.step (.pushOnto r a)).1.lookup? u = m'.lookup? u :=
    fun u => h.sound.lookup?_step_of_ne nofun
  have hr := (h.sound.view?_pushesThrough hk h.view?_eq hpush nofun).1 hk
  refine ⟨⟨v, hv⟩, h.sound.step _, hr, fun {u} hu => ?_, fun {u} hu => ?_⟩
  · have hne : m'.lookup? u ≠ some (.name k) := fun hsame => h.unshared hu (hsame.trans hk.symm)
    have hkept := (h.sound.view?_pushesThrough hk h.view?_eq hpush nofun).2 hne
    exact hkept.trans (h.view?_of_ne hu)
  · rw [hlookup, hlookup]
    exact h.unshared hu

/-- A child is a new name, which goes on from the name it was made from. -/
theorem Sound.shows_child {on arg : Expr} (hm : m.Sound) (hq : m.worth on = .ok (.name q))
    (ha : m.worth arg = .ok (.segment a)) (t : Text) :
    (∃ v, (m.step ⟨.child on arg, some t⟩).2 = .ok v) ∧
      m.Shows t (q.push a) (m.step ⟨.child on arg, some t⟩).1 := by
  refine hm.shows_step rfl nofun (fun _ => Operation.not_pushesVia nofun nofun) ?_
  show (m.worth arg >>= fun _ => m.worth on >>= _) = _
  rw [ha, hq]
  rfl

theorem Shows.child (h : m.Shows r q m') (a : Segment) :
    (∃ v, (m'.step (.replaceByChild r a)).2 = .ok v) ∧
      m.Shows r (q.push a) (m'.step (.replaceByChild r a)).1 := by
  obtain ⟨hok, hshows⟩ :=
    h.sound.shows_child (worth_of_view? h.view?_eq) (m'.worth_ofSegment a) r
  exact ⟨hok, h.trans hshows⟩

/-- Steps each of which extends the name by a segment extend it by all of them. -/
theorem Shows.run {stepFor : Segment → Step}
    (hstep : ∀ {m' q} (a : Segment), m.Shows r q m' →
      (∃ v, (m'.step (stepFor a)).2 = .ok v) ∧ m.Shows r (q.push a) (m'.step (stepFor a)).1)
    (h : m.Shows r q m') (ss : List Segment) :
    (∀ out ∈ m'.trace (ss.map stepFor), ∃ v, out.2 = .ok v) ∧
      m.Shows r (q.extend ss) (m'.run (ss.map stepFor)) := by
  induction ss generalizing m' q with
  | nil =>
    rw [QualName.extend_nil]
    exact ⟨by simp [trace], h⟩
  | cons a ss ih =>
    obtain ⟨hok, hshows⟩ := hstep a h
    obtain ⟨hoks, hrest⟩ := ih hshows
    exact ⟨forall_mem_trace_cons.2 ⟨hok, hoks⟩, by rwa [QualName.extend_cons]⟩

/-! ## The constructions -/

theorem mapM_worth_ofSegment (m : Machine) (ss : List Segment) :
    (ss.map Expr.ofSegment).mapM (fun e => m.worth e >>= Operand.asSegment) = .ok ss := by
  induction ss with
  | nil => rfl
  | cons a ss ih =>
    rw [List.map_cons, List.mapM_cons, ih, worth_ofSegment]
    rfl

theorem Sound.shows_single (hm : m.Sound) {op : Operation} (hvalue : ∀ e, op ≠ .value e)
    (hpush : ∀ u, ¬ op.PushesVia u) (hq : m.meaning op.form = .ok (.name q)) :
    (∀ out ∈ m.trace [⟨op, some r⟩], ∃ v, out.2 = .ok v) ∧ m.Shows r q (m.run [⟨op, some r⟩]) := by
  obtain ⟨hok, hshows⟩ := hm.shows_step (s := ⟨op, some r⟩) rfl hvalue hpush hq
  exact ⟨forall_mem_trace_cons.2 ⟨hok, by simp [trace]⟩, hshows⟩

/-- The first step of a construction makes a name, and each of the others extends it. -/
theorem Sound.shows_steps (hm : m.Sound) (c : Construction) (r : Text) (a : Segment)
    (ss : List Segment) :
    (∀ out ∈ m.trace (c.steps r a ss), ∃ v, out.2 = .ok v) ∧
      m.Shows r ((QualName.ofSegment a).extend ss) (m.run (c.steps r a ss)) := by
  have hmeaning : m.meaning (Step.makeOf r a).operation.form = .ok (.name (.ofSegment a)) := by
    show (m.worth (.ofSegment a) >>= _) = _
    rw [worth_ofSegment]
    rfl
  obtain ⟨hok, hshows⟩ := hm.shows_step (s := .makeOf r a) rfl nofun
    (fun _ => Operation.not_pushesVia nofun nofun) hmeaning
  cases c with
  | collecting =>
    refine hm.shows_single nofun (fun _ => Operation.not_pushesVia nofun nofun) ?_
    show ((List.map Expr.ofSegment (a :: ss)).mapM _ >>= _) = _
    rw [mapM_worth_ofSegment]
    rfl
  | pushing =>
    obtain ⟨hoks, hrest⟩ := hshows.run (fun a h => h.push a) ss
    exact ⟨forall_mem_trace_cons.2 ⟨hok, hoks⟩, hrest⟩
  | extending =>
    obtain ⟨hoks, hrest⟩ := hshows.run (fun a h => h.child a) ss
    exact ⟨forall_mem_trace_cons.2 ⟨hok, hoks⟩, hrest⟩
  | reading =>
    refine hm.shows_single nofun (fun _ => Operation.not_pushesVia nofun nofun) ?_
    show ((Operand.datum (.text ((QualName.ofSegment a).extend ss).text)).readName >>= _) = _
    rw [Operand.readName_eq_ok_iff_eq_text.2 rfl]
    rfl

theorem Sound.answer_text_of_read (hm : m.Sound) {t : Text} {v : Value}
    (hread : (m.step ⟨.readName (.datum (.text t)), some r⟩).2 = .ok v) :
    (m.step ⟨.readName (.datum (.text t)), some r⟩).1.answer (.text (.register r)) =
      .ok (.datum (.text t)) := by
  have hmeaning : m.meaning (Operation.readName (.datum (.text t))).form =
      (Operand.datum (.text t)).readName >>= fun q => .ok (.name q) := rfl
  cases hq : (Operand.datum (.text t)).readName with
  | error f =>
    rw [hq] at hmeaning
    rw [hm.result_eq_error_iff.2 hmeaning] at hread
    cases hread
  | ok q =>
    rw [hq] at hmeaning
    have hview : (m.step ⟨.readName (.datum (.text t)), some r⟩).1.view? r = some (.name q) :=
      hm.view?_step_target hmeaning rfl
    rw [Operand.readName_eq_ok_iff_eq_text.1 hq] at hview ⊢
    exact (hm.step _).answer_view hview rfl rfl

/-- Reading and writing are inverse to each other, and all constructions agree. A text that is read
as a name is the written form of this name. Whatever was done before, each construction makes a name
of the given segments, two of them make equal names, and reading the written form of any name that a
register holds gives a name of the same segments. -/
theorem constructions_agree (before : List Step) :
    let m := empty.run before
    (∀ t r v, (m.step ⟨.readName (.datum (.text t)), some r⟩).2 = .ok v →
      (m.step ⟨.readName (.datum (.text t)), some r⟩).1.answer (.text (.register r)) =
        .ok (.datum (.text t))) ∧
    (∀ (c : Construction) r a ss, (∀ out ∈ m.trace (c.steps r a ss), ∃ v, out.2 = .ok v) ∧
      (m.run (c.steps r a ss)).answer (.parts (.register r)) = .ok (.tuple (a :: ss))) ∧
    (∀ (c d : Construction) r u a ss, r ≠ u →
      (m.run (c.steps r a ss ++ d.steps u a ss)).answer (.equal (.register r) (.register u)) =
        .ok (.datum (.bool true))) ∧
    (∀ r h t u, m.lookup? r = some (.name h) → t ≠ r → u ≠ r → ∃ ss,
      m.answer (.parts (.register r)) = .ok (.tuple ss) ∧
      (m.run (reread r t u)).answer (.parts (.register u)) = .ok (.tuple ss)) := by
  intro m
  have hm : m.Sound := sound_run_empty before
  refine ⟨fun t r v hread => hm.answer_text_of_read hread, fun c r a ss => ?_,
    fun c d r u a ss hru => ?_, fun r h t u hr ht hu => ?_⟩
  · obtain ⟨hoks, hshows⟩ := hm.shows_steps c r a ss
    exact ⟨hoks, hshows.sound.answer_view hshows.view?_eq rfl rfl⟩
  · obtain ⟨-, hfirst⟩ := hm.shows_steps c r a ss
    obtain ⟨-, hsecond⟩ := hfirst.sound.shows_steps d u a ss
    have hr : (m.run (c.steps r a ss ++ d.steps u a ss)).view? r =
        some (.name ((QualName.ofSegment a).extend ss)) := by
      rw [run_append, hsecond.view?_of_ne hru, hfirst.view?_eq]
    have hu : (m.run (c.steps r a ss ++ d.steps u a ss)).view? u =
        some (.name ((QualName.ofSegment a).extend ss)) := by
      rw [run_append, hsecond.view?_eq]
    rw [(hm.run _).answer_equal hr hu, Operand.same_name_self]
  · obtain ⟨x, hx⟩ := hm.held hr
    obtain ⟨q, -, rfl⟩ := operand?_name.1 hx
    have hview : m.view? r = some (.name q) := view?_of_lookup? hr hx
    obtain ⟨-, hagain⟩ := hm.view?_run_reread hview ht hu
    exact ⟨q.segments, hm.answer_view hview rfl rfl, (hm.run _).answer_view hagain rfl rfl⟩

theorem constructions_agree_on_two_segments :
    ∃ a b : Segment,
      let m := empty.run [⟨.readName (.datum (.text ['a', '.', 'b'])), some ['x']⟩]
      let pushed := Construction.pushing.steps ['y'] a [b]
      let read := Construction.reading.steps ['z'] a [b]
      (m.step ⟨.readName (.datum (.text ['a', '.', 'b'])), some ['y']⟩).1.answer
        (.text (.register ['y'])) = .ok (.datum (.text ['a', '.', 'b'])) ∧
      (m.run pushed).answer (.parts (.register ['y'])) = .ok (.tuple [a, b]) ∧
      (m.run (pushed ++ read)).answer (.equal (.register ['y']) (.register ['z'])) =
        .ok (.datum (.bool true)) ∧
      ∃ ss, m.answer (.parts (.register ['x'])) = .ok (.tuple ss) ∧
        (m.run (reread ['x'] ['t'] ['u'])).answer (.parts (.register ['u'])) = .ok (.tuple ss) := by
  let a : Segment := ⟨['a'], by decide +kernel⟩
  let b : Segment := ⟨['b'], by decide +kernel⟩
  obtain ⟨hread, hparts, hequal, hagain⟩ :=
    constructions_agree [⟨.readName (.datum (.text ['a', '.', 'b'])), some ['x']⟩]
  exact ⟨a, b, hread _ _ (.name ⟨1⟩) rfl, (hparts .pushing ['y'] a [b]).2,
    hequal .pushing .reading ['y'] ['z'] a [b] (by decide),
    hagain ['x'] ⟨0⟩ ['t'] ['u'] rfl (by decide) (by decide)⟩

end Machine

end DottedNames.Script
