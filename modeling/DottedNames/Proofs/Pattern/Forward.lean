import DottedNames.Proofs.Pattern.Window
import Mathlib.Data.List.Forall2

/-!
# Patterns that do not look behind

Nothing behind a window is seen, for the text is cut there. What stands before it can be seen by
word boundaries. A pattern is `Forward` if that makes no difference: from cursors with the same text
ahead the matches end at corresponding places, in the same order. Sequence, choice and repetition
keep this, and a boundary does no harm behind a character. A forward pattern finds in a window what
it finds in the text of the window by itself (`Forward.spansBy_eq`).
-/

namespace DottedNames

/-- The span with `n` more positions before it. -/
def Span.moved (n : Nat) (s : Span) : Span := ⟨n + s.start, n + s.stop⟩

/-- Two cursors with the same text ahead, the second one `n` positions further on. -/
structure Cursor.Alike (n : Nat) (c d : Cursor) : Prop where
  /-- The number of positions between the two. -/
  position_eq : d.position = n + c.position
  /-- What stands before the cursors may differ. -/
  ahead_eq : d.ahead = c.ahead

/-- From cursors that are alike the same text can be read, up to cursors that are alike. -/
theorem Cursor.Alike.exists_reads {n : Nat} {c d e : Cursor} {u : Text} (h : c.Alike n d)
    (hread : c.Reads u e) : ∃ f, d.Reads u f ∧ e.Alike n f := by
  obtain ⟨f, hdf⟩ := Cursor.exists_reads (h.ahead_eq ▸ hread.isPrefix)
  refine ⟨f, hdf, ?_, ?_⟩
  · rw [hdf.position_eq, hread.position_eq, h.position_eq, Nat.add_assoc]
  · rw [← hdf.drop_ahead, ← hread.drop_ahead, h.ahead_eq]

namespace Pattern

variable {p q : Pattern} {c d : Cursor} {l : List Span} {n : Nat}

/-- From cursors that are alike the matches end at cursors that are alike. -/
def Forward (p : Pattern) : Prop :=
  ∀ n c d, c.Alike n d → List.Forall₂ (Cursor.Alike n) (p.ends c) (p.ends d)

theorem forward_advance (f : Char → Bool) (h : c.Alike n d) :
    List.Forall₂ (Cursor.Alike n) (advance f c []) (advance f d []) := by
  have hposition := h.position_eq
  rw [advance, advance, h.ahead_eq]
  cases c.ahead with
  | nil => exact .nil
  | cons x ahead =>
    simp only
    split
    · exact .cons ⟨by simp only; omega, rfl⟩ .nil
    · exact .nil

theorem forward_char (x : Char) : (char x).Forward := fun _ _ _ h => forward_advance _ h

theorem forward_oneOf (items : List ClassItem) : (oneOf items).Forward :=
  fun _ _ _ h => forward_advance _ h

/-- Behind a character that was read, a boundary sees this character. -/
theorem forward_char_boundary (x : Char) : (seq (char x) boundary).Forward := by
  intro n c d h
  have hposition := h.position_eq
  rw [ends_seq, ends_seq, ends_char, ends_char, advance, advance, h.ahead_eq]
  cases c.ahead with
  | nil => exact .nil
  | cons y ahead =>
    have hboundary : (⟨d.position + 1, some y, ahead⟩ : Cursor).atBoundary =
        (⟨c.position + 1, some y, ahead⟩ : Cursor).atBoundary := rfl
    simp only
    split
    · rw [List.flatMap_singleton, List.flatMap_singleton, ends_boundary, ends_boundary, hboundary]
      split
      · exact .cons ⟨by simp only; omega, rfl⟩ .nil
      · exact .nil
    · exact .nil

theorem Forward.seq (hp : p.Forward) (hq : q.Forward) : (seq p q).Forward := by
  intro n c d h
  rw [ends_seq, ends_seq]
  exact List.rel_flatMap (hp n c d h) fun _ _ => hq n _ _

theorem Forward.alt (hp : p.Forward) (hq : q.Forward) : (alt p q).Forward := by
  intro n c d h
  rw [ends_alt, ends_alt]
  exact List.rel_append (hp n c d h) (hq n c d h)

theorem Forward.star (hp : p.Forward) : (star p).Forward := by
  intro n c d h
  rw [ends_star, ends_star, h.ahead_eq]
  generalize c.ahead = budget
  induction budget generalizing c d with
  | nil => exact .cons h .nil
  | cons b budget ih =>
    -- A round moves on from one cursor exactly if the round from the other one does.
    have hmoves : ∀ e f : Cursor, e.Alike n f →
        (decide (c.position < e.position) = true ↔ decide (d.position < f.position) = true) := by
      intro e f hef
      have h1 := h.position_eq
      have h2 := hef.position_eq
      rw [decide_eq_true_iff, decide_eq_true_iff]
      omega
    rw [roundEnds_cons, roundEnds_cons]
    refine List.rel_append (List.rel_flatMap ?_ fun e f => ih e f) (.cons h .nil)
    exact List.rel_filter (fun e f hef => hmoves e f hef) (hp n c d h)

/-! ## The preferred match from cursors that are alike -/

theorem Forward.matchEnd? (hp : p.Forward) (h : c.Alike n d) :
    Option.Rel (Cursor.Alike n) (p.matchEnd? c) (p.matchEnd? d) := by
  have hends := hp n c d h
  rw [Pattern.matchEnd?, Pattern.matchEnd?]
  generalize p.ends c = l, p.ends d = m at hends
  cases hends with
  | nil => exact .none
  | cons hef _ => exact .some hef

theorem Forward.fullMatchEnd? (hp : p.Forward) (h : c.Alike n d) :
    Option.Rel (Cursor.Alike n) (p.fullMatchEnd? c) (p.fullMatchEnd? d) := by
  have hends := hp n c d h
  rw [Pattern.fullMatchEnd?, Pattern.fullMatchEnd?]
  generalize p.ends c = l, p.ends d = m at hends
  induction hends with
  | nil => exact .none
  | cons hef _ ih =>
    rw [List.find?_cons, List.find?_cons, hef.ahead_eq]
    split
    · exact .some hef
    · exact ih

/-- Matches that end at cursors that are alike have corresponding spans. -/
theorem map_span_of_rel (h : c.Alike n d) {x y : Option Cursor}
    (hxy : Option.Rel (Cursor.Alike n) x y) :
    (y.map fun e => (⟨d.position, e.position⟩ : Span)) =
      (x.map fun e => (⟨c.position, e.position⟩ : Span)).map (Span.moved n) := by
  cases hxy with
  | none => rfl
  | some hef => simp [Span.moved, h.position_eq, hef.position_eq]

/-- The walks from cursors that are alike take corresponding matches. -/
theorem Finds.moved (hp : p.Forward) (h : p.Finds c l) (hcd : c.Alike n d) :
    p.Finds d (l.map (Span.moved n)) := by
  induction h generalizing d with
  | stop hend hnone =>
    have hrel := hp.matchEnd? hcd
    rw [hnone] at hrel
    generalize hd : p.matchEnd? d = m at hrel
    cases hrel
    exact .stop (hcd.ahead_eq.trans hend) hd
  | pass hnone hread _ ih =>
    have hrel := hp.matchEnd? hcd
    rw [hnone] at hrel
    generalize hd : p.matchEnd? d = m at hrel
    cases hrel
    obtain ⟨f, hdf, hef⟩ := hcd.exists_reads hread
    exact .pass hd hdf (ih hef)
  | @take c e t l hmatch hread hne _ ih =>
    have hrel := hp.matchEnd? hcd
    rw [hmatch] at hrel
    generalize hd : p.matchEnd? d = m at hrel
    cases hrel with
    | @some _ f hef =>
      obtain ⟨u, hdf⟩ := exists_reads_of_mem_ends (List.mem_of_head? hd)
      have hne' : u ≠ [] := by
        rintro rfl
        have h1 := hread.position_eq
        have h2 := hdf.position_eq
        have h3 := hcd.position_eq
        have h4 := hef.position_eq
        have hpos := List.length_pos_iff.2 hne
        simp only [List.length_nil] at h2
        omega
      have hspan : (⟨c.position, e.position⟩ : Span).moved n = ⟨d.position, f.position⟩ := by
        rw [Span.moved, hcd.position_eq, hef.position_eq]
      rw [List.map_cons, hspan]
      exact .take hd hdf hne' (ih hef)

/-! ## A window by itself -/

variable {t window : Text} {pos endpos : Int}

/-- The cursor at the start of a window is like the one at the start of its text alone. -/
theorem alike_ofText {start stop : Nat} (h : start ≤ stop) (hstop : stop ≤ t.length) :
    (Cursor.ofText (Span.slice ⟨start, stop⟩ t) 0).Alike start (.ofText (t.take stop) start) where
  position_eq := by
    simp only [Cursor.ofText, List.length_take]
    omega
  ahead_eq := by simp [Cursor.ofText, Span.slice, List.drop_take]

theorem ofWindow?_self (window : Text) :
    Cursor.ofWindow? window 0 window.length = some (.ofText window 0) := by
  have hzero : clampPosition window.length 0 = 0 := by simp [clampPosition]
  rw [Cursor.ofWindow?_length, hzero]

/-- The four ways to try a pattern on a window. -/
inductive Method where
  /-- At the start of the window. -/
  | atStart
  /-- On all of the window. -/
  | whole
  /-- At the first place at which there is a match. -/
  | leftmost
  /-- Wherever there is a match, from left to right. -/
  | everywhere

/-- The spans of the matches that a method gives. -/
def spansBy (p : Pattern) : Method → Text → Int → Int → List Span
  | .atStart, t, pos, endpos => (p.matchSpan? t pos endpos).toList
  | .whole, t, pos, endpos => (p.fullMatchSpan? t pos endpos).toList
  | .leftmost, t, pos, endpos => (p.search? t pos endpos).toList
  | .everywhere, t, pos, endpos => p.findAll t pos endpos

theorem spansBy_of_lt (m : Method)
    (h : clampPosition t.length endpos < clampPosition t.length pos) :
    p.spansBy m t pos endpos = [] := by
  have hwindow := Cursor.ofWindow?_of_lt h
  cases m with
  | atStart => rw [spansBy, matchSpan?, hwindow]; rfl
  | whole => rw [spansBy, fullMatchSpan?, hwindow]; rfl
  | leftmost => rw [spansBy, search?, hwindow]; rfl
  | everywhere => exact findAll_of_lt h

/-- A pattern that does not look behind finds in a window what it finds in the text of the window.
-/
theorem Forward.spansBy_eq (hp : p.Forward) (hadvances : p.Advances) (m : Method)
    (h : clampPosition t.length pos ≤ clampPosition t.length endpos)
    (hwindow : window = Span.slice ⟨clampPosition t.length pos, clampPosition t.length endpos⟩ t) :
    p.spansBy m t pos endpos =
      (p.spansBy m window 0 window.length).map (Span.moved (clampPosition t.length pos)) := by
  have halike := alike_ofText h (clampPosition_le t.length endpos)
  rw [← hwindow] at halike
  have heverywhere : p.findAll t pos endpos =
      (p.findAll window 0 window.length).map (Span.moved (clampPosition t.length pos)) := by
    rw [findAll, Cursor.ofWindow?_of_le h, findAll, ofWindow?_self]
    exact ((hadvances.finds _).moved hp halike).findOnwards_eq
  cases m with
  | atStart =>
    rw [spansBy, spansBy, ← Option.toList_map]
    rw [matchSpan?, Cursor.ofWindow?_of_le h, matchSpan?, ofWindow?_self]
    exact congrArg Option.toList (map_span_of_rel halike (hp.matchEnd? halike))
  | whole =>
    rw [spansBy, spansBy, ← Option.toList_map]
    rw [fullMatchSpan?, Cursor.ofWindow?_of_le h, fullMatchSpan?, ofWindow?_self]
    exact congrArg Option.toList (map_span_of_rel halike (hp.fullMatchEnd? halike))
  | leftmost =>
    rw [spansBy, spansBy, ← Option.toList_map, hadvances.search?_eq_head?,
      hadvances.search?_eq_head?, heverywhere, List.head?_map]
  | everywhere => exact heverywhere

end Pattern

end DottedNames
