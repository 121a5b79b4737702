import DottedNames.Text.Utf8
import Mathlib.Data.List.Basic
import Mathlib.Tactic.SplitIfs

/-!
# Well-formed UTF-8

What well-formed means is said here without a reader. The bytes are cut into sequences, one for each
character; a sequence is a leading byte for its width and as many continuation bytes as that, and
its code point needs this width, is no surrogate and is not beyond the last one. Reading restricts
the first continuation byte instead, by a table of leading bytes, and comes to the same: it accepts
the well-formed bytes and no others, and it undoes writing (`decode_eq_ok_iff`, `wellFormed_iff`).
-/

namespace DottedNames.Utf8

/-! ## Sequences -/

/-- A width that the sequence of a character can have. -/
structure Width where
  /-- The least leading byte. -/
  marker : Nat
  /-- The number of leading bytes. -/
  room : Nat
  /-- The number of continuation bytes. -/
  continuations : Nat
  /-- The least code point that needs so many. -/
  least : Nat

/-- The four widths, from one byte to four. -/
def widths : List Width :=
  [⟨0x00, 0x80, 0, 0⟩, ⟨0xC0, 0x20, 1, 0x80⟩, ⟨0xE0, 0x10, 2, 0x800⟩, ⟨0xF0, 0x08, 3, 0x10000⟩]

/-- A continuation byte. -/
def IsContinuation (b : UInt8) : Prop := 0x80 ≤ b.toNat ∧ b.toNat ≤ 0xBF

/-- The number with the given leading bits and six more from each of the bytes. -/
def completed (bits : Nat) (cs : List UInt8) : Nat :=
  cs.foldl (fun n c => n * 0x40 + c.toNat % 0x40) bits

/-- A leading byte and the bytes behind it are a sequence of the given width. -/
structure IsSequence (w : Width) (b : UInt8) (cs : List UInt8) (codePoint : Nat) : Prop where
  /-- The leading byte is one of the width, so it is no stray continuation byte. -/
  lead : w.marker ≤ b.toNat ∧ b.toNat < w.marker + w.room
  /-- The sequence is not truncated. -/
  length_eq : cs.length = w.continuations
  /-- All bytes behind the leading one are continuation bytes. -/
  isContinuation : ∀ c ∈ cs, IsContinuation c
  /-- The code point is made of the bits of all bytes. -/
  codePoint_eq : codePoint = completed (b.toNat - w.marker) cs
  /-- The sequence is not overlong. -/
  least_le : w.least ≤ codePoint
  /-- The code point is no surrogate. -/
  not_surrogate : ¬(0xD800 ≤ codePoint ∧ codePoint ≤ 0xDFFF)
  /-- The code point is not beyond the last one. -/
  le_last : codePoint ≤ 0x10FFFF

/-- The bytes are sequences of characters, one behind the other. -/
inductive WellFormed : List UInt8 → Prop
  /-- No character. -/
  | nil : WellFormed []
  /-- A character, and what is well-formed behind it. -/
  | cons {w : Width} {b : UInt8} {cs rest : List UInt8} {codePoint : Nat} (hw : w ∈ widths)
      (first : IsSequence w b cs codePoint) (later : WellFormed rest) :
      WellFormed (b :: (cs ++ rest))

variable {b : UInt8} {bytes cs rest : List UInt8} {codePoint position n : Nat} {c : Char} {t : Text}
  {w : Width} {l : Lead}

theorem exists_mem_widths_iff {P : Width → Prop} :
    (∃ w ∈ widths, P w) ↔ P ⟨0x00, 0x80, 0, 0⟩ ∨ P ⟨0xC0, 0x20, 1, 0x80⟩ ∨
      P ⟨0xE0, 0x10, 2, 0x800⟩ ∨ P ⟨0xF0, 0x08, 3, 0x10000⟩ := by
  simp [widths]

theorem isSequence_iff :
    IsSequence w b cs codePoint ↔ (w.marker ≤ b.toNat ∧ b.toNat < w.marker + w.room) ∧
      cs.length = w.continuations ∧ (∀ c ∈ cs, IsContinuation c) ∧
      codePoint = completed (b.toNat - w.marker) cs ∧ w.least ≤ codePoint ∧
      ¬(0xD800 ≤ codePoint ∧ codePoint ≤ 0xDFFF) ∧ codePoint ≤ 0x10FFFF :=
  ⟨fun ⟨h1, h2, h3, h4, h5, h6, h7⟩ => ⟨h1, h2, h3, h4, h5, h6, h7⟩,
    fun ⟨h1, h2, h3, h4, h5, h6, h7⟩ => ⟨h1, h2, h3, h4, h5, h6, h7⟩⟩

/-! ## The sequence of a character -/

theorem codePoint_isScalar (c : Char) :
    ¬(0xD800 ≤ c.toNat ∧ c.toNat ≤ 0xDFFF) ∧ c.toNat ≤ 0x10FFFF := by
  have h : c.toNat < 0xD800 ∨ 0xDFFF < c.toNat ∧ c.toNat < 0x110000 := c.valid
  omega

/-- A code point that is no surrogate and not beyond the last one is that of a character. -/
theorem toNat_ofNat (hsurrogate : ¬(0xD800 ≤ n ∧ n ≤ 0xDFFF)) (hlast : n ≤ 0x10FFFF) :
    (Char.ofNat n).toNat = n := by
  have hvalid : n.isValidChar := by
    unfold Nat.isValidChar
    omega
  rw [Char.ofNat, dif_pos hvalid]
  rfl

/-- The bytes of a character are a sequence with its code point. -/
theorem exists_isSequence_of_encode (h : String.utf8EncodeChar c = b :: cs) :
    ∃ w ∈ widths, IsSequence w b cs c.toNat := by
  obtain ⟨hsurrogate, hlast⟩ := codePoint_isScalar c
  have hval : c.val.toNat = c.toNat := rfl
  rw [exists_mem_widths_iff]
  simp only [String.utf8EncodeChar, hval] at h
  generalize c.toNat = n at h hsurrogate hlast
  split_ifs at h with h1 h2 h3
  all_goals obtain ⟨rfl, rfl⟩ := List.cons.inj h
  · refine .inl ?_
    simp [isSequence_iff, completed]
    omega
  · refine .inr (.inl ?_)
    simp [isSequence_iff, completed, IsContinuation]
    omega
  · refine .inr (.inr (.inl ?_))
    simp [isSequence_iff, completed, IsContinuation]
    omega
  · refine .inr (.inr (.inr ?_))
    simp [isSequence_iff, completed, IsContinuation]
    omega

/-- A sequence is what the character with its code point is written as. -/
theorem encode_of_isSequence (hw : w ∈ widths) (h : IsSequence w b cs c.toNat) :
    String.utf8EncodeChar c = b :: cs := by
  have hval : c.val.toNat = c.toNat := rfl
  simp only [String.utf8EncodeChar, hval]
  generalize c.toNat = n at h
  obtain ⟨hlead, hlength, hcs, hn, hleast, -, hlast⟩ := h
  simp only [widths, List.mem_cons, List.not_mem_nil, or_false] at hw
  rcases hw with rfl | rfl | rfl | rfl
  all_goals simp only at hlead hlength hn hleast
  · obtain rfl := List.length_eq_zero_iff.1 hlength
    simp only [completed, List.foldl_nil] at hn
    rw [if_pos (by omega), hn, Nat.sub_zero, UInt8.ofNat_toNat]
  · obtain ⟨x, rfl⟩ := List.length_eq_one_iff.1 hlength
    simp only [completed, List.foldl_nil, List.foldl_cons, List.forall_mem_cons,
      IsContinuation] at hn hcs
    rw [if_neg (by omega), if_pos (by omega)]
    simp only [List.cons.injEq, ← UInt8.toNat_inj, UInt8.toNat_ofNat', and_true]
    and_intros <;> omega
  · obtain ⟨x, y, rfl⟩ := List.length_eq_two.1 hlength
    simp only [completed, List.foldl_nil, List.foldl_cons, List.forall_mem_cons,
      IsContinuation] at hn hcs
    rw [if_neg (by omega), if_neg (by omega), if_pos (by omega)]
    simp only [List.cons.injEq, ← UInt8.toNat_inj, UInt8.toNat_ofNat', and_true]
    and_intros <;> omega
  · obtain ⟨x, y, z, rfl⟩ := List.length_eq_three.1 hlength
    simp only [completed, List.foldl_nil, List.foldl_cons, List.forall_mem_cons,
      IsContinuation] at hn hcs
    rw [if_neg (by omega), if_neg (by omega), if_neg (by omega)]
    simp only [List.cons.injEq, ← UInt8.toNat_inj, UInt8.toNat_ofNat', and_true]
    and_intros <;> omega

theorem encode_cons (c : Char) (t : Text) :
    encode (c :: t) = String.utf8EncodeChar c ++ encode t := List.flatMap_cons

/-- Well-formed are the bytes of texts. -/
theorem wellFormed_iff : WellFormed bytes ↔ ∃ t, bytes = encode t := by
  constructor
  · intro h
    induction h with
    | nil => exact ⟨[], rfl⟩
    | @cons w b cs rest codePoint hw first _ ih =>
      obtain ⟨t, rfl⟩ := ih
      have hcodePoint := toNat_ofNat first.not_surrogate first.le_last
      rw [← hcodePoint] at first
      refine ⟨Char.ofNat codePoint :: t, ?_⟩
      rw [encode_cons, encode_of_isSequence hw first, List.cons_append]
  · rintro ⟨t, rfl⟩
    induction t with
    | nil => exact .nil
    | cons c t ih =>
      obtain ⟨b, cs, hcs⟩ := List.exists_cons_of_ne_nil (String.utf8EncodeChar_ne_nil (c := c))
      obtain ⟨w, hw, first⟩ := exists_isSequence_of_encode hcs
      rw [encode_cons, hcs, List.cons_append]
      exact .cons hw first ih

/-! ## The restricted continuation byte

Which sequences are overlong, surrogates or beyond the last code point can be told from the leading
byte and the first continuation byte.
-/

theorem isSequence_two_iff :
    IsSequence ⟨0xC0, 0x20, 1, 0x80⟩ b cs codePoint ↔
      ∃ x, cs = [x] ∧ (0xC2 ≤ b.toNat ∧ b.toNat < 0xE0) ∧ IsContinuation x ∧
        codePoint = completed (b.toNat - 0xC0) cs := by
  rw [isSequence_iff, List.length_eq_one_iff]
  constructor
  · rintro ⟨hb, ⟨x, rfl⟩, hcs, rfl, hleast, -⟩
    refine ⟨x, rfl, ?_, List.forall_mem_singleton.1 hcs, rfl⟩
    simp only [completed, List.foldl_cons, List.foldl_nil] at hleast hb
    omega
  · rintro ⟨x, rfl, hb, hx, rfl⟩
    refine ⟨by simp only; omega, ⟨x, rfl⟩, List.forall_mem_singleton.2 hx, rfl, ?_⟩
    simp only [completed, List.foldl_cons, List.foldl_nil, IsContinuation] at hx ⊢
    omega

theorem isSequence_three_iff :
    IsSequence ⟨0xE0, 0x10, 2, 0x800⟩ b cs codePoint ↔
      ∃ x y, cs = [x, y] ∧ (0xE0 ≤ b.toNat ∧ b.toNat < 0xF0) ∧ (IsContinuation x ∧
        (b.toNat = 0xE0 → 0xA0 ≤ x.toNat) ∧ (b.toNat = 0xED → x.toNat ≤ 0x9F)) ∧
        IsContinuation y ∧ codePoint = completed (b.toNat - 0xE0) cs := by
  rw [isSequence_iff, List.length_eq_two]
  constructor
  · rintro ⟨hb, ⟨x, y, rfl⟩, hcs, rfl, hleast, hsurrogate, -⟩
    simp only [completed, List.foldl_cons, List.foldl_nil,
      List.forall_mem_cons] at hb hcs hleast hsurrogate
    obtain ⟨hx, hy, -⟩ := hcs
    refine ⟨x, y, rfl, hb, ⟨hx, ?_⟩, hy, rfl⟩
    simp only [IsContinuation] at hx hy
    omega
  · rintro ⟨x, y, rfl, hb, ⟨hx, hfirst⟩, hy, rfl⟩
    refine ⟨hb, ⟨x, y, rfl⟩, by simp [hx, hy], rfl, ?_⟩
    simp only [completed, List.foldl_cons, List.foldl_nil, IsContinuation] at hx hy ⊢
    omega

theorem isSequence_four_iff :
    IsSequence ⟨0xF0, 0x08, 3, 0x10000⟩ b cs codePoint ↔
      ∃ x y z, cs = [x, y, z] ∧ (0xF0 ≤ b.toNat ∧ b.toNat ≤ 0xF4) ∧ (IsContinuation x ∧
        (b.toNat = 0xF0 → 0x90 ≤ x.toNat) ∧ (b.toNat = 0xF4 → x.toNat ≤ 0x8F)) ∧
        IsContinuation y ∧ IsContinuation z ∧ codePoint = completed (b.toNat - 0xF0) cs := by
  rw [isSequence_iff, List.length_eq_three]
  constructor
  · rintro ⟨hb, ⟨x, y, z, rfl⟩, hcs, rfl, hleast, -, hlast⟩
    simp only [completed, List.foldl_cons, List.foldl_nil,
      List.forall_mem_cons] at hb hcs hleast hlast
    obtain ⟨hx, hy, hz, -⟩ := hcs
    simp only [IsContinuation] at hx hy hz
    refine ⟨x, y, z, rfl, ?_, ⟨hx, ?_⟩, hy, hz, rfl⟩ <;> omega
  · rintro ⟨x, y, z, rfl, hb, ⟨hx, hfirst⟩, hy, hz, rfl⟩
    refine ⟨by simp only; omega, ⟨x, y, z, rfl⟩, by simp [hx, hy, hz], rfl, ?_⟩
    simp only [completed, List.foldl_cons, List.foldl_nil, IsContinuation] at hx hy hz ⊢
    omega

/-! ## Leading bytes -/

theorem lead?_of_lt_E0 (h : 0xC2 ≤ n ∧ n < 0xE0) : lead? n = some ⟨n - 0xC0, 1, 0x80, 0xBF⟩ := by
  rw [lead?, if_neg (by omega), if_pos h.2]

theorem lead?_of_lt_F0 (h : 0xE0 ≤ n ∧ n < 0xF0) :
    lead? n = some ⟨n - 0xE0, 2, if n = 0xE0 then 0xA0 else 0x80,
      if n = 0xED then 0x9F else 0xBF⟩ := by
  rw [lead?, if_neg (by omega), if_neg (by omega)]
  split_ifs <;> simp_all

theorem lead?_of_le_F4 (h : 0xF0 ≤ n ∧ n ≤ 0xF4) :
    lead? n = some ⟨n - 0xF0, 3, if n = 0xF0 then 0x90 else 0x80,
      if n = 0xF4 then 0x8F else 0xBF⟩ := by
  rw [lead?, if_neg (by omega), if_neg (by omega), if_neg (by omega), if_neg (by omega),
    if_neg (by omega)]
  split_ifs <;> first | omega | simp_all

theorem range_of_lead? (h : lead? n = some l) :
    (0xC2 ≤ n ∧ n < 0xE0) ∨ (0xE0 ≤ n ∧ n < 0xF0) ∨ (0xF0 ≤ n ∧ n ≤ 0xF4) := by
  unfold lead? at h
  split_ifs at h <;> omega

/-- Continuation bytes of which the first is restricted. -/
def Continues (least greatest : Nat) : List UInt8 → Prop
  | [] => True
  | c :: cs => (least ≤ c.toNat ∧ c.toNat ≤ greatest) ∧ ∀ d ∈ cs, IsContinuation d

theorem continues_iff : Continues 0x80 0xBF cs ↔ ∀ c ∈ cs, IsContinuation c := by
  cases cs with
  | nil => simp [Continues]
  | cons c cs => rw [Continues, List.forall_mem_cons, IsContinuation]

/-- What a leading byte announces is a sequence if it comes. -/
theorem exists_isSequence_of_lead (hl : lead? b.toNat = some l)
    (hlength : cs.length = l.continuations) (hcs : Continues l.least l.greatest cs) :
    ∃ w ∈ widths, IsSequence w b cs (completed l.bits cs) := by
  rw [exists_mem_widths_iff, isSequence_two_iff, isSequence_three_iff, isSequence_four_iff]
  rcases range_of_lead? hl with h | h | h
  · obtain rfl := Option.some.inj ((lead?_of_lt_E0 h).symm.trans hl)
    obtain ⟨x, rfl⟩ := List.length_eq_one_iff.1 hlength
    exact .inr (.inl ⟨x, rfl, h, hcs.1, rfl⟩)
  · obtain rfl := Option.some.inj ((lead?_of_lt_F0 h).symm.trans hl)
    obtain ⟨x, y, rfl⟩ := List.length_eq_two.1 hlength
    refine .inr (.inr (.inl ⟨x, y, rfl, h, ?_, hcs.2 y (by simp), rfl⟩))
    simp only [Continues, IsContinuation] at hcs ⊢
    grind
  · obtain rfl := Option.some.inj ((lead?_of_le_F4 h).symm.trans hl)
    obtain ⟨x, y, z, rfl⟩ := List.length_eq_three.1 hlength
    refine .inr (.inr (.inr ⟨x, y, z, rfl, h, ?_, hcs.2 y (by simp), hcs.2 z (by simp), rfl⟩))
    simp only [Continues, IsContinuation] at hcs ⊢
    grind

/-- The leading byte of a sequence of several bytes announces what comes. -/
theorem exists_lead_of_isSequence (hw : w ∈ widths) (hb : 0x80 ≤ b.toNat)
    (h : IsSequence w b cs codePoint) :
    ∃ l, lead? b.toNat = some l ∧ cs.length = l.continuations ∧
      Continues l.least l.greatest cs ∧ codePoint = completed l.bits cs := by
  have hcases := exists_mem_widths_iff (P := fun w => IsSequence w b cs codePoint).1 ⟨w, hw, h⟩
  simp only [isSequence_two_iff, isSequence_three_iff, isSequence_four_iff] at hcases
  rcases hcases with h | ⟨x, rfl, hb, hx, rfl⟩ | ⟨x, y, rfl, hb, hx, hy, rfl⟩ |
    ⟨x, y, z, rfl, hb, hx, hy, hz, rfl⟩
  · exact absurd h.lead.2 (by simpa using hb)
  · exact ⟨_, lead?_of_lt_E0 hb, rfl, ⟨hx, by simp⟩, rfl⟩
  · refine ⟨_, lead?_of_lt_F0 hb, rfl, ⟨?_, by simpa using hy⟩, rfl⟩
    simp only [IsContinuation] at hx ⊢
    grind
  · refine ⟨_, lead?_of_le_F4 hb, rfl, ⟨?_, by simpa using ⟨hy, hz⟩⟩, rfl⟩
    simp only [IsContinuation] at hx ⊢
    grind

/-! ## Reading -/

theorem continued_eq_ok_iff {bits count good least greatest : Nat} :
    continued bits count good least greatest bytes = .ok codePoint ↔
      ∃ cs rest, bytes = cs ++ rest ∧ cs.length = count ∧ Continues least greatest cs ∧
        codePoint = completed bits cs := by
  induction count generalizing bits good least greatest bytes with
  | zero =>
    rw [continued, Except.ok.injEq]
    constructor
    · rintro rfl
      exact ⟨[], bytes, rfl, rfl, trivial, rfl⟩
    · rintro ⟨cs, rest, -, hlength, -, rfl⟩
      rw [List.length_eq_zero_iff.1 hlength]
      rfl
  | succ count ih =>
    cases bytes with
    | nil =>
      simp only [continued, reduceCtorEq, false_iff]
      rintro ⟨cs, rest, happend, hlength, -⟩
      rw [(List.append_eq_nil_iff.1 happend.symm).1] at hlength
      cases hlength
    | cons b bytes =>
      rw [continued]
      split
      · next hrange =>
        rw [ih]
        constructor
        · rintro ⟨cs, rest, rfl, rfl, hcs, rfl⟩
          exact ⟨b :: cs, rest, rfl, rfl, ⟨hrange, continues_iff.1 hcs⟩, rfl⟩
        · rintro ⟨cs, rest, happend, hlength, hcs, rfl⟩
          obtain ⟨c, cs, rfl⟩ := List.exists_cons_of_length_eq_add_one hlength
          obtain ⟨rfl, rfl⟩ := List.cons.inj happend
          exact ⟨cs, rest, rfl, Nat.succ.inj hlength, continues_iff.2 hcs.2, rfl⟩
      · next hrange =>
        simp only [reduceCtorEq, false_iff]
        rintro ⟨cs, rest, happend, hlength, hcs, -⟩
        obtain ⟨c, cs, rfl⟩ := List.exists_cons_of_length_eq_add_one hlength
        obtain ⟨rfl, rfl⟩ := List.cons.inj happend
        exact hrange hcs.1

/-- The sequence of an ASCII character is its one byte. -/
theorem IsSequence.of_lt (hw : w ∈ widths) (hb : b.toNat < 0x80) (h : IsSequence w b cs codePoint) :
    cs = [] ∧ codePoint = b.toNat := by
  simp only [widths, List.mem_cons, List.not_mem_nil, or_false] at hw
  have hmarker := h.lead.1
  rcases hw with rfl | rfl | rfl | rfl
  · obtain rfl := List.length_eq_zero_iff.1 h.length_eq
    exact ⟨rfl, h.codePoint_eq⟩
  all_goals
    simp only at hmarker
    omega

/-- The sequence of a character is read as the character, whatever follows. -/
theorem decodeFrom_sequence_append (h : String.utf8EncodeChar c = b :: cs) :
    decodeFrom position (b :: (cs ++ rest)) =
      (decodeFrom (position + 1 + cs.length) rest).map (c :: ·) := by
  obtain ⟨w, hw, hsequence⟩ := exists_isSequence_of_encode h
  rw [decodeFrom]
  split
  · next hb =>
    obtain ⟨rfl, hcodePoint⟩ := hsequence.of_lt hw hb
    rw [← hcodePoint, Char.ofNat_toNat, List.nil_append, List.length_nil, Nat.add_zero]
    cases decodeFrom (position + 1) rest <;> rfl
  · next hb =>
    obtain ⟨l, hl, hlength, hcs, hcodePoint⟩ :=
      exists_lead_of_isSequence hw (Nat.not_lt.1 hb) hsequence
    have hcontinued : continued l.bits cs.length 0 l.least l.greatest (cs ++ rest) =
        .ok c.toNat := continued_eq_ok_iff.2 ⟨cs, rest, rfl, rfl, hcs, hcodePoint⟩
    simp only [hl, ← hlength, hcontinued, List.drop_left, Char.ofNat_toNat]
    cases decodeFrom (position + 1 + cs.length) rest <;> rfl

/-- What is read starts with the sequence of a character. -/
theorem exists_sequence_of_decodeFrom (h : decodeFrom position (b :: bytes) = .ok t) :
    ∃ c cs rest, String.utf8EncodeChar c = b :: cs ∧ bytes = cs ++ rest := by
  have hcharacter : ∀ {w cs n}, w ∈ widths → IsSequence w b cs n →
      String.utf8EncodeChar (Char.ofNat n) = b :: cs := by
    intro w cs n hw hsequence
    refine encode_of_isSequence hw ?_
    rwa [toNat_ofNat hsequence.not_surrogate hsequence.le_last]
  rw [decodeFrom] at h
  split at h
  · next hb =>
    have hsequence : IsSequence ⟨0x00, 0x80, 0, 0⟩ b [] b.toNat := by
      simp [isSequence_iff, completed]
      omega
    exact ⟨_, [], bytes, hcharacter (by simp [widths]) hsequence, rfl⟩
  · split at h
    · cases h
    · next l hl =>
      split at h
      · cases h
      · next codePoint hcontinued =>
        obtain ⟨cs, rest, rfl, hlength, hcs, rfl⟩ := continued_eq_ok_iff.1 hcontinued
        obtain ⟨w, hw, hsequence⟩ := exists_isSequence_of_lead hl hlength hcs
        exact ⟨_, cs, rest, hcharacter hw hsequence, rfl⟩

/-- The bytes that are read as a text are those that the text is written as. -/
theorem decodeFrom_eq_ok_iff : decodeFrom position bytes = .ok t ↔ bytes = encode t := by
  constructor
  · intro h
    induction hlength : bytes.length using Nat.strongRecOn generalizing position bytes t with
    | ind n ih =>
      cases bytes with
      | nil =>
        rw [decodeFrom, Except.ok.injEq] at h
        rw [← h]
        rfl
      | cons b bytes =>
        obtain ⟨c, cs, rest, hcs, rfl⟩ := exists_sequence_of_decodeFrom h
        rw [decodeFrom_sequence_append hcs] at h
        cases hrest : decodeFrom (position + 1 + cs.length) rest with
        | error e =>
          rw [hrest] at h
          cases h
        | ok u =>
          rw [hrest] at h
          obtain rfl := Except.ok.inj h
          have hshorter : rest.length < n := by
            simp only [List.length_cons, List.length_append] at hlength
            omega
          rw [encode_cons, hcs, List.cons_append, ih rest.length hshorter hrest rfl]
  · rintro rfl
    induction t generalizing position with
    | nil => rw [encode, List.flatMap_nil, decodeFrom]
    | cons c t ih =>
      obtain ⟨b, cs, hcs⟩ := List.exists_cons_of_ne_nil (String.utf8EncodeChar_ne_nil (c := c))
      rw [encode_cons, hcs, List.cons_append, decodeFrom_sequence_append hcs, ih]
      rfl

theorem decode_eq_ok_iff : decode bytes = .ok t ↔ bytes = encode t := decodeFrom_eq_ok_iff

/-- Bytes that cannot be read are not well-formed. -/
theorem exists_decode_eq_error_iff : (∃ e, decode bytes = .error e) ↔ ¬WellFormed bytes := by
  simp only [wellFormed_iff, ← decode_eq_ok_iff]
  cases decode bytes <;> simp

end DottedNames.Utf8
