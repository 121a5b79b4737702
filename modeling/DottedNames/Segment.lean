import DottedNames.Text

/-!
# Segments

A segment, a `Name`, is one dot-free piece of a dotted name: an ASCII letter followed by ASCII
letters, digits and underscores, or the bare underscore. The type carries the proof that its text is
spelled so, as `Name.__post_init__` does not let any other text pass; whoever holds a segment holds
a valid one, and in particular a text without dots, blanks and line breaks.

The check there is a full match of `NAME_GRAMMAR`, which lets the same texts pass
(`isSome_fullMatchSpan?_name_iff`).
-/

namespace DottedNames

/-- Whether a text spells a segment. -/
def Segment.spells : Text → Bool
  | [] => false
  | c :: cs => (c.isAlpha && cs.all Text.isNameChar) || (c == '_' && cs.isEmpty)

/-- One dot-free piece of a dotted name, a `Name`. -/
structure Segment where
  /-- The characters of the segment. -/
  text : Text
  /-- The characters spell a segment. -/
  spells_text : Segment.spells text = true
deriving DecidableEq

namespace Segment

/-- The segment with the given text, if the text spells one. -/
def ofText? (t : Text) : Option Segment :=
  if h : spells t = true then some ⟨t, h⟩ else none

/-- The number of characters of the segment (`Name.__len__`). -/
def length (s : Segment) : Nat := s.text.length

/-! ## What a text that spells a segment looks like -/

/-- A segment is a letter followed by name characters, or the bare underscore. -/
theorem spells_iff {t : Text} :
    spells t = true ↔
      (∃ c cs, t = c :: cs ∧ c.isAlpha = true ∧ ∀ d ∈ cs, Text.isNameChar d = true) ∨
        t = ['_'] := by
  cases t with
  | nil => simp [spells]
  | cons c cs =>
    simp only [spells, Bool.or_eq_true, Bool.and_eq_true, List.all_eq_true, List.isEmpty_iff,
      beq_iff_eq, List.cons.injEq]
    constructor
    · rintro (h | h)
      · exact .inl ⟨c, cs, ⟨rfl, rfl⟩, h⟩
      · exact .inr h
    · rintro (⟨_, _, ⟨rfl, rfl⟩, h⟩ | h)
      · exact .inl h
      · exact .inr h

/-- A segment has name characters only. -/
theorem isNameChar_of_mem_text {s : Segment} {c : Char} (hc : c ∈ s.text) :
    Text.isNameChar c = true := by
  rcases spells_iff.1 s.spells_text with ⟨a, as, ht, ha, has⟩ | ht
  · rw [ht] at hc
    rcases List.mem_cons.1 hc with rfl | hc
    · simp [Text.isNameChar, Char.isAlphanum, ha]
    · exact has c hc
  · rw [ht] at hc
    cases List.mem_singleton.1 hc
    rfl

/-- Reading the text of a segment gives the segment back. -/
@[simp] theorem ofText?_text (s : Segment) : ofText? s.text = some s := by
  simp [ofText?, s.spells_text]

/-- A segment that is read has the text it was read from. -/
theorem text_of_ofText? {t : Text} {s : Segment} (h : ofText? t = some s) : s.text = t := by
  unfold ofText? at h
  split at h
  · cases h; rfl
  · cases h

/-- Reading fails exactly on the texts that spell no segment. -/
theorem ofText?_eq_none_iff {t : Text} : ofText? t = none ↔ spells t = false := by
  simp [ofText?]

end Segment

end DottedNames
