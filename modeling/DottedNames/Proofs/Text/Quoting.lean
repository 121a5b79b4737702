import DottedNames.InvalidIdentifier
import DottedNames.Proofs.Text.Numeral
import Mathlib.Tactic.SplitIfs

/-!
# Quoted texts are printable

Between its quote marks a text shows printable characters only, whatever characters it has. So a
message that quotes texts has no line feed, and a line of a report ends where the message ends.
-/

namespace DottedNames

namespace Text

/-- All characters of a text are printable. -/
def Printable (t : Text) : Prop := ∀ c ∈ t, isPrintable c = true

/-- Whether a character is one of ASCII from the blank to the tilde. -/
def isVisibleAscii (c : Char) : Bool := 0x20 ≤ c.toNat && c.toNat < 0x7F

/-- The characters at which a text may be cut into lines. -/
def lineBreaks : List Char :=
  ['\n', '\x0b', '\x0c', '\r', '\x1c', '\x1d', '\x1e', '\u0085', '\u2028', '\u2029']

variable {t u : Text} {mark c : Char}

@[simp] theorem printable_nil : Printable [] := List.forall_mem_nil _

@[simp] theorem printable_cons : Printable (c :: t) ↔ isPrintable c = true ∧ Printable t :=
  List.forall_mem_cons

@[simp] theorem printable_append : Printable (t ++ u) ↔ Printable t ∧ Printable u :=
  List.forall_mem_append

/-- A printable text is one line, whichever character is taken for the end of a line. -/
theorem Printable.lineBreak_notMem (h : Printable t) (hc : c ∈ lineBreaks) : c ∉ t := by
  have hbreaks : lineBreaks.any isPrintable = false := by decide +kernel
  intro hmem
  exact List.any_eq_false.1 hbreaks c hc (h c hmem)

theorem Printable.lineFeed_notMem (h : Printable t) : '\n' ∉ t :=
  h.lineBreak_notMem (by decide)

theorem isPrintable_of_isVisibleAscii (h : isVisibleAscii c = true) : isPrintable c = true := by
  -- The first range of the table ends before the blank, and all others start behind the tilde.
  have hranges : ∀ r ∈ nonPrintableTable.ranges, r.2 < 0x20 ∨ 0x7F ≤ r.1 := by decide +kernel
  simp only [isVisibleAscii, Bool.and_eq_true, decide_eq_true_eq] at h
  rw [isPrintable, Bool.not_eq_true', ← Bool.not_eq_true, RangeTable.contains_iff]
  rintro ⟨r, hr, hfirst, hlast⟩
  have hrange := hranges r hr
  omega

theorem printable_of_all_isVisibleAscii (h : t.all isVisibleAscii = true) : Printable t :=
  fun c hc => isPrintable_of_isVisibleAscii (List.all_eq_true.1 h c hc)

/-! ## Numerals -/

theorem isPrintable_digitChar (n : Nat) (h : n < 16) : isPrintable (Nat.digitChar n) = true := by
  have hascii : ∀ n < 16, isVisibleAscii (Nat.digitChar n) = true := by decide
  exact isPrintable_of_isVisibleAscii (hascii n h)

theorem printable_hexDigits (width n : Nat) : Printable (hexDigits width n) := by
  induction width generalizing n with
  | zero => exact printable_nil
  | succ width ih =>
    have hlast := isPrintable_digitChar _ (Nat.mod_lt n (by decide : 0 < 16))
    rw [hexDigits, printable_append]
    exact ⟨ih (n / 16), by simp [hlast]⟩

theorem printable_ofNat (n : Nat) : Printable (ofNat n) := by
  induction n using Nat.strongRecOn with
  | ind n ih =>
    have hlast : isPrintable (Nat.digitChar (n % 10)) = true :=
      isPrintable_digitChar _ (Nat.lt_trans (Nat.mod_lt n (by decide)) (by decide))
    rcases Nat.lt_or_ge n 10 with hlt | hge
    · rw [Nat.mod_eq_of_lt hlt] at hlast
      rw [ofNat, Nat.toDigits_of_lt_base hlt]
      simp [hlast]
    · rw [ofNat, Nat.toDigits_of_base_le (by decide) hge, printable_append]
      exact ⟨ih (n / 10) (Nat.div_lt_self (by omega) (by decide)), by simp [hlast]⟩

theorem printable_ofInt (i : Int) : Printable (ofInt i) := by
  cases i with
  | ofNat n => exact printable_ofNat n
  | negSucc n => exact printable_cons.2 ⟨isPrintable_of_isVisibleAscii rfl, printable_ofNat _⟩

/-! ## Quoted texts -/

theorem isPrintable_backslash : isPrintable '\\' = true := isPrintable_of_isVisibleAscii rfl

theorem printable_escapeCodePoint (n : Nat) : Printable (escapeCodePoint n) := by
  unfold escapeCodePoint
  split_ifs
  all_goals
    simp only [printable_cons, isPrintable_backslash, printable_hexDigits, and_true, true_and]
    exact isPrintable_of_isVisibleAscii rfl

theorem isPrintable_quoteMark : isPrintable (quoteMark t) = true := by
  unfold quoteMark
  split <;> exact isPrintable_of_isVisibleAscii rfl

/-- The escape of a character is printable. -/
theorem printable_escape (hmark : isPrintable mark = true) (c : Char) :
    Printable (escape mark c) := by
  unfold escape
  split_ifs with hself hline hreturn htab hprintable
  · rcases hself with rfl | rfl
    · exact printable_of_all_isVisibleAscii rfl
    · simp [isPrintable_backslash, hmark]
  · exact printable_of_all_isVisibleAscii rfl
  · exact printable_of_all_isVisibleAscii rfl
  · exact printable_of_all_isVisibleAscii rfl
  · simp [hprintable]
  · exact printable_escapeCodePoint c.toNat

/-- A quoted text is printable. -/
theorem printable_quoted (t : Text) : Printable t.quoted := by
  have hinside : Printable (t.flatMap (escape (quoteMark t))) := by
    intro c hc
    obtain ⟨x, -, hx⟩ := List.mem_flatMap.1 hc
    exact printable_escape isPrintable_quoteMark x c hx
  simp [quoted, isPrintable_quoteMark, hinside]

end Text

namespace InvalidIdentifier

theorem printable_positionText (position : Option Int) :
    Text.Printable (positionText position) := by
  cases position with
  | none => exact Text.printable_of_all_isVisibleAscii (by decide)
  | some i => exact Text.printable_ofInt i

/-- The words on a text that spells no segment are printable. -/
theorem printable_wording (text : Text) (source : Option Text) (position : Option Int) :
    Text.Printable (wording text source position) := by
  have hinvalid : Text.Printable "Invalid identifier ".toList :=
    Text.printable_of_all_isVisibleAscii (by decide)
  have hat : Text.Printable " at segment ".toList :=
    Text.printable_of_all_isVisibleAscii (by decide)
  have hof : Text.Printable " of ".toList := Text.printable_of_all_isVisibleAscii (by decide)
  have hdot : Text.Printable ".".toList := Text.printable_of_all_isVisibleAscii (by decide)
  unfold wording
  split
  · simp only [Text.printable_append, Text.printable_quoted, hinvalid, hdot, and_self]
  · simp only [Text.printable_append, Text.printable_quoted, printable_positionText, hinvalid, hat,
      hof, hdot, and_self]

/-- The message on an invalid identifier is printable. -/
theorem printable_message (e : InvalidIdentifier) : Text.Printable e.message :=
  printable_wording _ _ _

end InvalidIdentifier

end DottedNames
