import DottedNames.Log.Field

/-!
# Placeholders

A placeholder stands between braces for a value: `{level.name!r:>9}` is the name of the level,
turned into its literal and laid out on the right of nine places. In front is the name of a field,
with the way to a part of it; then there may be an exclamation mark with a conversion, and then a
colon with a presentation.

Here a placeholder is read behind its opening brace. Square brackets protect what is between them,
and the presentation may hold pairs of braces of its own.
-/

namespace DottedNames

/-- The opening brace. -/
def openBrace : Char := '\x7b'

/-- The closing brace. -/
def closeBrace : Char := '\x7d'

/-- What stands between two braces. -/
structure Placeholder where
  /-- The name of a field and the way to a part of it. -/
  path : Text
  /-- The letter of the conversion. -/
  conversion : Option Char
  /-- The presentation. -/
  presentation : Text
deriving DecidableEq

namespace Placeholder

/-! ## Reading -/

/-- The path at the start of a text, and what follows it; `bracketed` says whether a square bracket
is open. -/
def splitPath (bracketed : Bool) : Text → Text × Text
  | [] => ([], [])
  | c :: cs =>
    if !bracketed && c ∈ [openBrace, closeBrace, ':', '!'] then ([], c :: cs)
    else
      let (path, rest) := splitPath (if bracketed then c != ']' else c == '[') cs
      (c :: path, rest)

/-- The text up to the closing brace, and what follows that brace, when `depth` pairs of braces have
to be closed before. -/
def splitPresentation : Nat → Text → Option (Text × Text)
  | _, [] => none
  | depth, c :: cs =>
    if c = closeBrace then
      match depth with
      | 0 => some ([], cs)
      | depth + 1 => (splitPresentation depth cs).map fun (t, rest) => (c :: t, rest)
    else
      (splitPresentation (if c = openBrace then depth + 1 else depth) cs).map
        fun (t, rest) => (c :: t, rest)

/-- The placeholder at the start of a text, behind its opening brace, and what follows it. -/
def read? (t : Text) : Option (Placeholder × Text) :=
  let (path, rest) := splitPath false t
  match rest with
  | '\x7d' :: rest => some (⟨path, none, []⟩, rest)
  | ':' :: rest => (splitPresentation 0 rest).map fun (p, rest) => (⟨path, none, p⟩, rest)
  | '!' :: c :: '\x7d' :: rest => some (⟨path, some c, []⟩, rest)
  | '!' :: c :: ':' :: rest =>
    (splitPresentation 0 rest).map fun (p, rest) => (⟨path, some c, p⟩, rest)
  | _ => none

/-- What follows a path is no longer than the text. -/
theorem splitPath_length (bracketed : Bool) (t : Text) :
    (splitPath bracketed t).2.length ≤ t.length := by
  induction t generalizing bracketed with
  | nil => simp [splitPath]
  | cons c cs ih =>
    rw [splitPath]
    split
    · exact Nat.le_refl _
    · exact Nat.le_succ_of_le (ih _)

/-- What follows a presentation is no longer than the text. -/
theorem splitPresentation_length {depth : Nat} {t p rest : Text}
    (h : splitPresentation depth t = some (p, rest)) : rest.length ≤ t.length := by
  induction t generalizing depth p rest with
  | nil => simp [splitPresentation] at h
  | cons c cs ih =>
    unfold splitPresentation at h
    split at h
    · split at h
      · simp only [Option.some.injEq, Prod.mk.injEq] at h
        simp [← h.2]
      · obtain ⟨⟨q, r⟩, hq, he⟩ := Option.map_eq_some_iff.mp h
        cases he
        exact Nat.le_succ_of_le (ih hq)
    · obtain ⟨⟨q, r⟩, hq, he⟩ := Option.map_eq_some_iff.mp h
      cases he
      exact Nat.le_succ_of_le (ih hq)

/-- What follows a placeholder is no longer than the text. -/
theorem read?_length {t rest : Text} {p : Placeholder} (h : read? t = some (p, rest)) :
    rest.length ≤ t.length := by
  have hle := splitPath_length false t
  unfold read? at h
  split at h
  next path behind heq =>
  rw [heq] at hle
  split at h
  · cases h
    simp only [List.length_cons] at hle
    omega
  · obtain ⟨⟨q, r⟩, hq, he⟩ := Option.map_eq_some_iff.mp h
    cases he
    have := splitPresentation_length hq
    simp only [List.length_cons] at hle
    omega
  · cases h
    simp only [List.length_cons] at hle
    omega
  · obtain ⟨⟨q, r⟩, hq, he⟩ := Option.map_eq_some_iff.mp h
    cases he
    have := splitPresentation_length hq
    simp only [List.length_cons] at hle
    omega
  · cases h

/-! ## Looking up -/

/-- Whether a character ends the name of a field or of a part. -/
def endsName (c : Char) : Bool := c == '.' || c == '['

/-- The way to a part: names behind dots and keys between square brackets. -/
def selectors? : Text → Option (List Selector)
  | [] => some []
  | '.' :: cs =>
    let name := cs.takeWhile fun c => !endsName c
    if name.isEmpty then none
    else (selectors? (cs.drop name.length)).map (.part name :: ·)
  | '[' :: cs =>
    let key := cs.takeWhile (· != ']')
    if key.isEmpty || (cs.drop key.length).isEmpty then none
    else (selectors? (cs.drop (key.length + 1))).map (.item key :: ·)
  | _ => none
termination_by t => t.length
decreasing_by all_goals (simp only [List.length_drop, List.length_cons]; omega)

/-- The value that a path leads to, given the values of the fields. -/
def value? (field? : Text → Option FieldValue) (path : Text) : Option FieldValue := do
  let name := path.takeWhile fun c => !endsName c
  let selectors ← selectors? (path.drop name.length)
  selectors.foldlM FieldValue.select? (← field? name)

/-- What a placeholder is replaced by, given the values of the fields and a presentation. -/
def fill? (field? : Text → Option FieldValue) (p : Placeholder) (presentation : Text) :
    Option Text := do
  let value ← value? field? p.path
  match p.conversion with
  | none => value.present? presentation
  | some c => (Datum.text (← value.convert? (← Conversion.ofChar? c))).present presentation

end Placeholder

end DottedNames
