import DottedNames.Proofs.Location.Lines
import DottedNames.Text.Newline

/-!
# Lines that end in two characters

In a text in which carriage returns stand in front of line feeds only, unifying the line ends drops
the carriage returns and does nothing else (`Text.unifyNewlines_eq_withoutReturns`). Such a text is
cut into the same lines then, except that some of them had a carriage return at the end, and none
anywhere else.
-/

namespace DottedNames.Text

/-- Every carriage return has a line feed right behind it. -/
def ReturnsEndLines (t : Text) : Prop := ∀ n, t[n]? = some '\r' → t[n + 1]? = some '\n'

variable {c : Char} {t l rest : Text}

/-- The text without its carriage returns. -/
def withoutReturns (t : Text) : Text := t.filter (· != '\r')

theorem returnsEndLines_nil : ReturnsEndLines [] := nofun

theorem returnsEndLines_cons :
    ReturnsEndLines (c :: t) ↔ (c = '\r' → t.head? = some '\n') ∧ ReturnsEndLines t := by
  constructor
  · intro h
    refine ⟨fun hc => ?_, fun n => h (n + 1)⟩
    rw [List.head?_eq_getElem?]
    exact h 0 (congrArg some hc)
  · rintro ⟨hc, ht⟩ n hn
    cases n with
    | zero =>
      rw [List.getElem?_cons_succ, ← List.head?_eq_getElem?]
      exact hc (Option.some.inj hn)
    | succ n => exact ht n hn

instance decidableReturnsEndLines : DecidablePred ReturnsEndLines
  | [] => isTrue returnsEndLines_nil
  | _ :: t =>
    have := decidableReturnsEndLines t
    decidable_of_iff _ returnsEndLines_cons.symm

theorem withoutReturns_cons_of_ne (h : c ≠ '\r') :
    withoutReturns (c :: t) = c :: t.withoutReturns :=
  List.filter_cons_of_pos (bne_iff_ne.2 h)

/-- Where carriage returns only end lines, unifying the line ends drops them. -/
theorem unifyNewlines_eq_withoutReturns (h : ReturnsEndLines t) :
    t.unifyNewlines = t.withoutReturns := by
  induction t using unifyNewlines.induct with
  | case1 => rfl
  | case2 t ih =>
    obtain ⟨-, -, ht⟩ := returnsEndLines_cons.1 h |>.imp_right returnsEndLines_cons.1
    rw [unifyNewlines, ih ht]
    rfl
  | case3 t hne ih =>
    obtain ⟨u, rfl⟩ := List.head?_eq_some_iff.1 ((returnsEndLines_cons.1 h).1 rfl)
    exact absurd rfl (hne u)
  | case4 c t _ hc ih =>
    rw [unifyNewlines, ih (returnsEndLines_cons.1 h).2, withoutReturns_cons_of_ne hc]
    · assumption
    · assumption

/-! ## The lines -/

theorem ReturnsEndLines.of_append (h : ReturnsEndLines (l ++ rest)) : ReturnsEndLines rest := by
  induction l with
  | nil => exact h
  | cons c l ih => exact ih (returnsEndLines_cons.1 h).2

/-- The last line has no carriage return. -/
theorem ReturnsEndLines.withoutReturns_last (h : ReturnsEndLines l) (hl : '\n' ∉ l) :
    l.withoutReturns = l := by
  refine List.filter_eq_self.2 fun c hc => bne_iff_ne.2 ?_
  rintro rfl
  obtain ⟨n, hn⟩ := List.getElem?_of_mem hc
  exact hl (List.mem_of_getElem? (h n hn))

/-- Any other line has a carriage return at its end or none. -/
theorem ReturnsEndLines.withoutReturns_line (h : ReturnsEndLines (l ++ '\n' :: rest))
    (hl : '\n' ∉ l) : l = l.withoutReturns ∨ l = l.withoutReturns ++ ['\r'] := by
  induction l with
  | nil => exact .inl rfl
  | cons c l ih =>
    obtain ⟨hc, hrest⟩ := returnsEndLines_cons.1 h
    obtain ⟨-, hl⟩ := not_or.1 (mt List.mem_cons.2 hl)
    by_cases hreturn : c = '\r'
    · cases l with
      | nil => exact .inr (by rw [hreturn]; rfl)
      | cons d l => exact absurd (Option.some.inj (hc hreturn)) (List.ne_of_not_mem_cons hl).symm
    · rw [withoutReturns_cons_of_ne hreturn]
      exact (ih hrest hl).imp (congrArg (c :: ·)) (congrArg (c :: ·))

end DottedNames.Text
