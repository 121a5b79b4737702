import DottedNames.Proofs.Pattern.Spelling

/-!
# Preference and length

A backtracking search prefers an end because of the order in which alternatives are tried, not
because of how far it reaches. A pattern is *greedy* when the two agree: the ends from every cursor
are listed the furthest first. The preferred match of a greedy pattern is then the longest one
(`Greedy.matchEnd?_eq_some_iff`).

A repetition is greedy when a round has at most one end from each cursor, for then going on and
giving a round back are the only choices. A sequence is greedy when its parts are, as long as giving
back a part of the first match never lets the whole reach further.
-/

namespace DottedNames.Pattern

/-- Two ends of a match, the first of them further on. -/
def Beyond (d e : Cursor) : Prop := e.position < d.position

/-- The ends of the pattern are listed the furthest first. -/
def Greedy (p : Pattern) : Prop := ∀ c, (p.ends c).Pairwise Beyond

/-- The pattern has at most one end from every cursor. -/
def Determinate (p : Pattern) : Prop := ∀ c, (p.ends c).length ≤ 1

variable {p q : Pattern} {L : Language Char} {c d e : Cursor}

/-! ## Patterns with at most one end -/

theorem Determinate.greedy (h : p.Determinate) : p.Greedy := by
  intro c
  have hc := h c
  match p.ends c, hc with
  | [], _ => exact .nil
  | [d], _ => exact List.pairwise_singleton _ d

/-- A greedy pattern all of whose ends are at one position has at most one end. -/
theorem Greedy.determinate (h : p.Greedy)
    (hpos : ∀ c d e, d ∈ p.ends c → e ∈ p.ends c → d.position = e.position) : p.Determinate := by
  intro c
  have hc := h c
  have hcpos := hpos c
  match p.ends c, hc, hcpos with
  | [], _, _ => simp
  | [_], _, _ => simp
  | d :: e :: l, hc, hcpos =>
    have hlt : e.position < d.position := (List.pairwise_cons.1 hc).1 e List.mem_cons_self
    have heq := hcpos d e List.mem_cons_self (List.mem_cons_of_mem d List.mem_cons_self)
    omega

theorem length_advance_le (f : Char → Bool) (c : Cursor) : (advance f c []).length ≤ 1 := by
  unfold advance
  split
  · split <;> simp
  · simp

theorem determinate_char (x : Char) : (char x).Determinate := fun c => length_advance_le _ c

theorem determinate_oneOf (items : List ClassItem) : (oneOf items).Determinate :=
  fun c => length_advance_le _ c

theorem determinate_boundary : boundary.Determinate := by
  intro c
  rw [ends_boundary]
  split <;> simp

/-! ## Sequences -/

/-- A sequence is greedy when the second part never reaches further from an earlier end of the
first part than from a later one. -/
theorem Greedy.seq (hp : p.Greedy) (hq : q.Greedy)
    (hcross : ∀ c d e, d ∈ p.ends c → e ∈ p.ends c → Beyond d e →
      ∀ d' ∈ q.ends d, ∀ e' ∈ q.ends e, Beyond d' e') : (seq p q).Greedy := by
  intro c
  rw [ends_seq, List.pairwise_flatMap]
  refine ⟨fun d _ => hq d, ?_⟩
  exact List.Pairwise.imp_of_mem (fun hd he hde => hcross c _ _ hd he hde) (hp c)

/-- Going on from at most one cursor keeps the order. -/
theorem pairwise_flatMap_of_length_le_one {l : List Cursor} {f : Cursor → List Cursor}
    (hl : l.length ≤ 1) (hf : ∀ d, (f d).Pairwise Beyond) : (l.flatMap f).Pairwise Beyond := by
  match l, hl with
  | [], _ => exact .nil
  | [d], _ => simpa using hf d

theorem Determinate.seq_greedy (hp : p.Determinate) (hq : q.Greedy) : (seq p q).Greedy := by
  intro c
  rw [ends_seq]
  exact pairwise_flatMap_of_length_le_one (hp c) hq

theorem Determinate.seq (hp : p.Determinate) (hq : q.Determinate) : (seq p q).Determinate := by
  intro c
  rw [ends_seq]
  have hc := hp c
  match p.ends c, hc with
  | [], _ => simp
  | [d], _ => simpa using hq d

/-! ## Repetitions -/

theorem position_le_of_mem_roundEnds {round : Cursor → List Cursor} {budget : Text}
    (h : d ∈ roundEnds round budget c) : c.position ≤ d.position := by
  induction budget generalizing c with
  | nil =>
    rw [roundEnds_nil, List.mem_singleton] at h
    exact h ▸ le_rfl
  | cons b budget ih =>
    rw [roundEnds_cons, List.mem_append, List.mem_flatMap, List.mem_singleton] at h
    rcases h with ⟨e, he, hd⟩ | rfl
    · have hlt : c.position < e.position := of_decide_eq_true (List.mem_filter.1 he).2
      exact hlt.le.trans (ih hd)
    · exact le_rfl

/-- Going on reaches further than stopping. -/
theorem Determinate.star_greedy (hp : p.Determinate) : (star p).Greedy := by
  intro c
  rw [ends_star]
  generalize c.ahead = budget
  induction budget generalizing c with
  | nil => exact List.pairwise_singleton _ c
  | cons b budget ih =>
    rw [roundEnds_cons, List.pairwise_append]
    refine ⟨?_, List.pairwise_singleton _ c, ?_⟩
    · exact pairwise_flatMap_of_length_le_one ((List.length_filter_le _ _).trans (hp c)) ih
    · -- Stopping at `c` is listed last, and every end behind a round is further on.
      intro d hd e he
      obtain ⟨r, hr, hrd⟩ := List.mem_flatMap.1 hd
      have hlt : c.position < r.position := of_decide_eq_true (List.mem_filter.1 hr).2
      have hle := position_le_of_mem_roundEnds hrd
      rw [List.mem_singleton.1 he]
      exact hlt.trans_le hle

/-! ## The preferred match -/

/-- The preferred match of a greedy pattern is the longest one. -/
theorem Greedy.matchEnd?_eq_some_iff (h : p.Greedy) :
    p.matchEnd? c = some d ↔ d ∈ p.ends c ∧ ∀ e ∈ p.ends c, e = d ∨ Beyond d e := by
  have hc := h c
  unfold matchEnd?
  match p.ends c, hc with
  | [], _ => simp
  | x :: l, hc =>
    rw [List.head?_cons, Option.some_inj]
    have hx := (List.pairwise_cons.1 hc).1
    constructor
    · rintro rfl
      refine ⟨List.mem_cons_self, fun e he => ?_⟩
      rcases List.mem_cons.1 he with rfl | he
      · exact .inl rfl
      · exact .inr (hx e he)
    · rintro ⟨hd, hmax⟩
      rcases List.mem_cons.1 hd with rfl | hd
      · rfl
      · rcases hmax x List.mem_cons_self with hxd | hxd
        · exact hxd
        · exact absurd (hx d hd) (Nat.lt_asymm hxd)

theorem matchEnd?_eq_none_iff : p.matchEnd? c = none ↔ p.ends c = [] := by
  rw [matchEnd?, List.head?_eq_none_iff]

end DottedNames.Pattern
