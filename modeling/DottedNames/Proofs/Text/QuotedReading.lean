import DottedNames.Proofs.Text.Quoting

/-!
# Reading quoted texts

A quoted text is read back as the text it quotes, up to the closing mark and whatever follows that
(`readQuoted?_quoted_append`). The reader is told nothing but the characters: the first one is the
mark, a backslash starts an escape, and the letter behind the backslash says how many hexadecimal
digits the escape has. So a text that quotes other texts tells where each of them ends, even if they
have quote marks, backslashes or words of the text around them.
-/

namespace DottedNames.Text

/-! ## The reader -/

/-- The character that stands behind a backslash, if it is not given by its code point. -/
def unescape (c : Char) : Char :=
  if c = 'n' then '\n' else if c = 'r' then '\r' else if c = 't' then '\t' else c

/-- A character in front of what a reader has read. -/
def withChar (c : Char) (r : Option (Text × Text)) : Option (Text × Text) :=
  r.map fun (t, rest) => (c :: t, rest)

/-- A character, given by the hexadecimal digits of its code point, in front of what a reader has
read. -/
def withCodePoint (digits : Text) (r : Option (Text × Text)) : Option (Text × Text) :=
  (readHex? digits).bind fun n => withChar (Char.ofNat n) r

/-- The characters of a quoted text up to its closing mark, and what follows the mark. -/
def readInside? (mark : Char) : Text → Option (Text × Text)
  | [] => none
  | '\\' :: 'x' :: d₁ :: d₂ :: t => withCodePoint [d₁, d₂] (readInside? mark t)
  | '\\' :: 'u' :: d₁ :: d₂ :: d₃ :: d₄ :: t =>
    withCodePoint [d₁, d₂, d₃, d₄] (readInside? mark t)
  | '\\' :: 'U' :: d₁ :: d₂ :: d₃ :: d₄ :: d₅ :: d₆ :: d₇ :: d₈ :: t =>
    withCodePoint [d₁, d₂, d₃, d₄, d₅, d₆, d₇, d₈] (readInside? mark t)
  | '\\' :: c :: t => withChar (unescape c) (readInside? mark t)
  | c :: t => if c = mark then some ([], t) else withChar c (readInside? mark t)

/-- The text that is quoted at the start of a text, and what follows its closing mark. -/
def readQuoted? : Text → Option (Text × Text)
  | [] => none
  | mark :: t => if mark = singleQuote ∨ mark = '"' then readInside? mark t else none

variable {t u t' u' : Text} {mark c : Char}

/-! ## The round trip -/

theorem quoteMark_eq_or (t : Text) : quoteMark t = singleQuote ∨ quoteMark t = '"' := by
  unfold quoteMark
  split
  · exact .inr rfl
  · exact .inl rfl

theorem withCodePoint_hexDigits {width : Nat} (h : c.toNat < 16 ^ width)
    (r : Option (Text × Text)) : withCodePoint (hexDigits width c.toNat) r = withChar c r := by
  unfold withCodePoint
  rw [readHex?_hexDigits, Nat.mod_eq_of_lt h, Option.bind_some, Char.ofNat_toNat]

/-- A character that is written by its code point is read back from the hexadecimal digits. -/
theorem readInside?_escapeCodePoint_append (c : Char) :
    readInside? mark (escapeCodePoint c.toNat ++ t) = withChar c (readInside? mark t) := by
  unfold escapeCodePoint
  split_ifs with htwo hfour
  · exact withCodePoint_hexDigits (show c.toNat < 16 ^ 2 from htwo) _
  · exact withCodePoint_hexDigits (show c.toNat < 16 ^ 4 from hfour) _
  · -- No code point needs more than eight digits.
    have height : c.toNat < 16 ^ 8 := c.val.toNat_lt
    exact withCodePoint_hexDigits height _

/-- What is written for a character is read back as the character. -/
theorem readInside?_escape_append (hmark : mark = singleQuote ∨ mark = '"') (c : Char) :
    readInside? mark (escape mark c ++ t) = withChar c (readInside? mark t) := by
  unfold escape
  split_ifs with hself hline hreturn htab hprintable
  · rcases hself with rfl | rfl
    · rfl
    · rcases hmark with rfl | rfl <;> rfl
  · subst hline; rfl
  · subst hreturn; rfl
  · subst htab; rfl
  · obtain ⟨hbackslash, hne⟩ := not_or.1 hself
    show readInside? mark (c :: t) = _
    rw [readInside?]
    · exact if_neg hne
    · exact fun _ _ _ h _ => hbackslash h
    · exact fun _ _ _ _ _ h _ => hbackslash h
    · exact fun _ _ _ _ _ _ _ _ _ h _ => hbackslash h
    · exact fun _ _ h _ => hbackslash h
  · exact readInside?_escapeCodePoint_append c

theorem readInside?_append (hmark : mark = singleQuote ∨ mark = '"') (t rest : Text) :
    readInside? mark (t.flatMap (escape mark) ++ mark :: rest) = some (t, rest) := by
  induction t with
  | nil => rcases hmark with rfl | rfl <;> rfl
  | cons c t ih =>
    rw [List.flatMap_cons, List.append_assoc, readInside?_escape_append hmark, ih]
    rfl

/-- A quoted text is read back as the text, whatever follows it. -/
theorem readQuoted?_quoted_append (t rest : Text) :
    readQuoted? (t.quoted ++ rest) = some (t, rest) := by
  have hmark := quoteMark_eq_or t
  have hquoted : t.quoted ++ rest =
      quoteMark t :: (t.flatMap (escape (quoteMark t)) ++ quoteMark t :: rest) := by
    simp [quoted]
  rw [hquoted, readQuoted?, if_pos hmark, readInside?_append hmark]

/-- Where a quoted text comes first, it can be told apart from what follows it. -/
theorem quoted_append_inj : t.quoted ++ u = t'.quoted ++ u' ↔ t = t' ∧ u = u' := by
  constructor
  · intro h
    have hread := congrArg readQuoted? h
    rw [readQuoted?_quoted_append, readQuoted?_quoted_append] at hread
    simpa using hread
  · rintro ⟨rfl, rfl⟩
    rfl

end DottedNames.Text
