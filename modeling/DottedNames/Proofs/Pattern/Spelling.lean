import DottedNames.Proofs.Pattern.Cursor
import Mathlib.Computability.Language

/-!
# The texts that a pattern matches

`Pattern.ends` enumerates the ends of a match in the order of a backtracking search. Here the set of
these ends is described without the search: a pattern spells a language when its ends from a cursor
are the cursors up to which some text of the language is read. `Pattern.Spells` is compositional:
sequence, choice and repetition of patterns spell the product, the sum and the star of the
languages. A word boundary spells no language, for it looks at what stands around the match.
-/

namespace DottedNames.Pattern

open scoped Computability

/-- From every cursor, the ends of the pattern are where a text of the language is read to. -/
def Spells (p : Pattern) (L : Language Char) : Prop :=
  ∀ c d, d ∈ p.ends c ↔ ∃ t ∈ L, c.Reads t d

variable {p q : Pattern} {L M : Language Char}

theorem mem_advance_iff {f : Char → Bool} {c d : Cursor} :
    d ∈ advance f c [] ↔ ∃ x, f x = true ∧ c.Reads [x] d := by
  obtain ⟨position, before, ahead⟩ := c
  cases ahead with
  | nil =>
    constructor
    · intro h
      cases h
    · rintro ⟨x, -, h⟩
      exact absurd h.ahead_eq (by simp)
  | cons y ahead =>
    have hread := Cursor.reads_singleton position before y ahead
    constructor
    · intro h
      simp only [advance] at h
      split at h
      · next hy =>
        rw [List.mem_singleton.1 h]
        exact ⟨y, hy, hread⟩
      · cases h
    · rintro ⟨x, hx, h⟩
      have hxy : y = x := (List.cons.inj h.ahead_eq).1
      subst hxy
      simp [advance, hx, h.unique hread]

theorem spells_char (x : Char) : (char x).Spells ({[x]} : Set Text) := by
  intro c d
  rw [ends_char, mem_advance_iff]
  constructor
  · rintro ⟨y, hy, h⟩
    obtain rfl : y = x := by simpa using hy
    exact ⟨[y], rfl, h⟩
  · rintro ⟨t, rfl, h⟩
    exact ⟨x, by simp, h⟩

/-- The one-character texts whose character satisfies `f`. -/
def oneOfLanguage (f : Char → Bool) : Language Char := {t | ∃ x, f x = true ∧ t = [x]}

theorem spells_oneOf (items : List ClassItem) :
    (oneOf items).Spells (oneOfLanguage fun x => items.any (·.contains x)) := by
  intro c d
  rw [ends_oneOf, mem_advance_iff]
  constructor
  · rintro ⟨x, hx, h⟩
    exact ⟨[x], ⟨x, hx, rfl⟩, h⟩
  · rintro ⟨t, ⟨x, hx, rfl⟩, h⟩
    exact ⟨x, hx, h⟩

/-- Repeated choice of characters gives the texts of such characters. -/
theorem mem_kstar_oneOfLanguage_iff {f : Char → Bool} {t : Text} :
    t ∈ (oneOfLanguage f)∗ ↔ ∀ x ∈ t, f x = true := by
  constructor
  · rintro ⟨ts, rfl, hts⟩ x hx
    obtain ⟨u, hu, hxu⟩ := List.mem_flatten.1 hx
    obtain ⟨y, hy, rfl⟩ := hts u hu
    rw [List.mem_singleton.1 hxu]
    exact hy
  · intro h
    refine Language.mem_kstar.2 ⟨t.map fun x => [x], ?_, ?_⟩
    · rw [← List.flatMap_def, List.flatMap_singleton']
    · intro u hu
      obtain ⟨x, hx, rfl⟩ := List.mem_map.1 hu
      exact ⟨x, h x hx, rfl⟩

theorem Spells.seq (hp : p.Spells L) (hq : q.Spells M) : (seq p q).Spells (L * M) := by
  intro c d
  rw [ends_seq, List.mem_flatMap]
  constructor
  · rintro ⟨e, he, hd⟩
    obtain ⟨t, ht, hce⟩ := (hp c e).1 he
    obtain ⟨u, hu, hed⟩ := (hq e d).1 hd
    exact ⟨t ++ u, Language.append_mem_mul ht hu, hce.trans hed⟩
  · rintro ⟨v, hv, hcd⟩
    obtain ⟨t, ht, u, hu, rfl⟩ := Language.mem_mul.1 hv
    obtain ⟨e, hce, hed⟩ := hcd.split
    exact ⟨e, (hp c e).2 ⟨t, ht, hce⟩, (hq e d).2 ⟨u, hu, hed⟩⟩

/-- Rounds may be cut off only when nothing is left to be read, so the budget does not show as long
as it covers what is ahead. -/
theorem mem_roundEnds_iff (hp : p.Spells L) {budget : Text} {c d : Cursor}
    (hbudget : c.ahead.length ≤ budget.length) :
    d ∈ roundEnds p.ends budget c ↔ ∃ t ∈ L∗, c.Reads t d := by
  induction budget generalizing c with
  | nil =>
    have hnil : c.ahead = [] := List.length_eq_zero_iff.1 (Nat.le_zero.1 hbudget)
    rw [roundEnds_nil, List.mem_singleton]
    constructor
    · rintro rfl
      exact ⟨[], Language.nil_mem_kstar L, .refl d⟩
    · rintro ⟨t, -, h⟩
      have ht : t = [] := List.prefix_nil.1 (hnil ▸ h.isPrefix)
      subst ht
      exact h.unique (.refl c)
  | cons b budget ih =>
    rw [roundEnds_cons, List.mem_append, List.mem_flatMap, List.mem_singleton]
    constructor
    · rintro (⟨e, he, hd⟩ | rfl)
      · obtain ⟨hce, hforward⟩ := List.mem_filter.1 he
        obtain ⟨t, ht, hread⟩ := (hp c e).1 hce
        have hlt : c.position < e.position := of_decide_eq_true hforward
        -- A round that counts moves on, so the smaller budget covers what is left.
        have hshort : e.ahead.length ≤ budget.length := by
          have h1 := hread.length_ahead
          have h2 := hread.position_eq
          simp only [List.length_cons] at hbudget
          omega
        obtain ⟨u, hu, hrest⟩ := (ih hshort).1 hd
        refine ⟨t ++ u, ?_, hread.trans hrest⟩
        rw [← Language.one_add_self_mul_kstar_eq_kstar]
        exact .inr (Language.append_mem_mul ht hu)
      · exact ⟨[], Language.nil_mem_kstar L, .refl d⟩
    · rintro ⟨v, hv, hcd⟩
      -- Empty rounds are left out: the search does not go through them either.
      obtain ⟨rounds, rfl, hrounds⟩ := Language.mem_kstar_iff_exists_nonempty.1 hv
      cases rounds with
      | nil => exact .inr (hcd.unique (.refl c))
      | cons t rounds =>
        obtain ⟨ht, hne⟩ := hrounds t List.mem_cons_self
        obtain ⟨e, hce, hed⟩ := Cursor.Reads.split (List.flatten_cons ▸ hcd)
        have hpos := List.length_pos_iff.2 hne
        have h1 := hce.length_ahead
        have h2 := hce.position_eq
        have hlt : c.position < e.position := by omega
        have hshort : e.ahead.length ≤ budget.length := by
          simp only [List.length_cons] at hbudget
          omega
        refine .inl ⟨e, List.mem_filter.2 ⟨(hp c e).2 ⟨t, ht, hce⟩, decide_eq_true hlt⟩, ?_⟩
        refine (ih hshort).2 ⟨rounds.flatten, ?_, hed⟩
        exact Language.join_mem_kstar fun y hy => (hrounds y (List.mem_cons_of_mem t hy)).1

theorem Spells.star (hp : p.Spells L) : (star p).Spells L∗ := by
  intro c d
  rw [ends_star]
  exact mem_roundEnds_iff hp le_rfl

end DottedNames.Pattern
