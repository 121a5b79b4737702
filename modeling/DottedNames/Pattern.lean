import DottedNames.Text

/-!
# Patterns

A pattern describes the shape of a piece of text. Matching starts at a cursor, which is a place in a
text, and may end at several cursors; `Pattern.ends` lists them all, the preferred one first. The
order of preference is that of a backtracking search: of two alternatives the first is preferred,
and a repetition prefers to go on as long as it can. So the head of the list is the match that such
a search finds first, and a full match is the first end that leaves nothing of the text.

A word boundary looks at the character before the cursor, which is why a cursor remembers it even
when matching starts there. Word characters are those of `Text.isNameChar`, that is, ASCII.

The list is built from its end: `endsOnto p c more` puts the ends of `p` in front of `more`.
-/

namespace DottedNames

/-- A place in a text. -/
structure Cursor where
  /-- The number of characters before the cursor. -/
  position : Nat
  /-- The character just before the cursor, if there is one. -/
  before : Option Char
  /-- The characters ahead. -/
  ahead : Text
deriving DecidableEq

namespace Cursor

/-- The cursor in front of the `position`-th character of a text, or at its end. -/
def ofText (t : Text) (position : Nat) : Cursor where
  position := min position t.length
  before := (t.take position).getLast?
  ahead := t.drop position

/-- Whether a neighbour of the cursor is there and is a word character. -/
def isWord (neighbour : Option Char) : Bool := neighbour.any Text.isNameChar

/-- Whether exactly one neighbour of the cursor is a word character. -/
def atBoundary (c : Cursor) : Bool := isWord c.before != isWord c.ahead.head?

end Cursor

/-- One item of a character class. -/
inductive ClassItem where
  /-- One character. -/
  | single (c : Char)
  /-- The characters from `first` to `last`. -/
  | range (first last : Char)
deriving DecidableEq

namespace ClassItem

/-- Whether a character belongs to the item. -/
def contains : ClassItem → Char → Bool
  | .single c, d => c == d
  | .range first last, d => first ≤ d && d ≤ last

/-- The written form inside a character class. -/
def source : ClassItem → Text
  | .single c => [c]
  | .range first last => [first, '-', last]

end ClassItem

/-- The shape of a piece of text. -/
inductive Pattern where
  /-- One given character. -/
  | char (c : Char)
  /-- One character of a class. -/
  | oneOf (items : List ClassItem)
  /-- No character, at a word boundary. -/
  | boundary
  /-- One shape and then another. -/
  | seq (p q : Pattern)
  /-- One of two shapes, preferably the first. -/
  | alt (p q : Pattern)
  /-- A shape any number of times, preferably often. -/
  | star (p : Pattern)
deriving DecidableEq

namespace Pattern

/-! ## Written form -/

/-- Whether a character has a meaning of its own in a written pattern. -/
def isSpecial (c : Char) : Bool := c ∈ ".^$*+?()[]\x7b\x7d|\\".toList

/-- A written pattern as a group. -/
def group (t : Text) : Text := "(?:".toList ++ t ++ ")".toList

/-- Whether the written form of a pattern can be repeated without a group around it. -/
def isAtom : Pattern → Bool
  | .char _ => true
  | .oneOf _ => true
  | .alt _ _ => true
  | _ => false

/-- The written form of a pattern. -/
def source : Pattern → Text
  | .char c => if isSpecial c then ['\\', c] else [c]
  | .oneOf items => '[' :: (items.flatMap ClassItem.source ++ [']'])
  | .boundary => ['\\', 'b']
  | .seq p q => p.source ++ q.source
  | .alt p q => group (p.source ++ '|' :: q.source)
  | .star p => (if p.isAtom then p.source else group p.source) ++ ['*']

/-! ## Matching -/

/-- The cursor behind the next character, if that character satisfies `p`, in front of `more`. -/
def advance (p : Char → Bool) (c : Cursor) (more : List Cursor) : List Cursor :=
  match c.ahead with
  | d :: ahead => if p d then ⟨c.position + 1, some d, ahead⟩ :: more else more
  | [] => more

/-- The ends of any number of rounds from a cursor, in front of `more`. A round that does not move
the cursor forward leads nowhere, so there are at most as many rounds as characters in `budget`,
which is what was ahead of the cursor before the first round. -/
def rounds (round : Cursor → List Cursor) : (budget : Text) → Cursor → List Cursor → List Cursor
  | [], c, more => c :: more
  | _ :: budget, c, more =>
    (round c).foldr
      (fun d later => if c.position < d.position then rounds round budget d later else later)
      (c :: more)

/-- The cursors at which a match that starts at `c` may end, in front of `more`. -/
def endsOnto : Pattern → Cursor → List Cursor → List Cursor
  | .char d, c, more => advance (· == d) c more
  | .oneOf items, c, more => advance (fun d => items.any (·.contains d)) c more
  | .boundary, c, more => if c.atBoundary then c :: more else more
  | .seq p q, c, more => (endsOnto p c []).foldr (endsOnto q) more
  | .alt p q, c, more => endsOnto p c (endsOnto q c more)
  | .star p, c, more => rounds (fun d => endsOnto p d []) c.ahead c more

/-- The cursors at which a match that starts at `c` may end, the preferred one first. -/
def ends (p : Pattern) (c : Cursor) : List Cursor := endsOnto p c []

/-! ## The list of ends

The ends of a composite pattern in terms of the ends of its parts; after these equations nobody
needs to look into `endsOnto`.
-/

/-- The ends of any number of rounds from a cursor. -/
def roundEnds (round : Cursor → List Cursor) (budget : Text) (c : Cursor) : List Cursor :=
  rounds round budget c []

/-- Putting lists in front of each other one after the other concatenates them. -/
theorem foldr_onto {f : Cursor → List Cursor → List Cursor} {g : Cursor → List Cursor}
    (h : ∀ d more, f d more = g d ++ more) (l more : List Cursor) :
    l.foldr f more = l.flatMap g ++ more := by
  induction l with
  | nil => rfl
  | cons d l ih => simp [h, ih]

theorem advance_eq_append (p : Char → Bool) (c : Cursor) (more : List Cursor) :
    advance p c more = advance p c [] ++ more := by
  unfold advance
  split
  · split <;> rfl
  · rfl

theorem rounds_eq_append (round : Cursor → List Cursor) (budget : Text) (c : Cursor)
    (more : List Cursor) : rounds round budget c more = roundEnds round budget c ++ more := by
  induction budget generalizing c more with
  | nil => rfl
  | cons b budget ih =>
    have step : ∀ d later, (if c.position < d.position then rounds round budget d later else later)
        = (if c.position < d.position then roundEnds round budget d else []) ++ later := by
      intro d later
      split
      · exact ih d later
      · rfl
    simp only [roundEnds, rounds]
    rw [foldr_onto step, foldr_onto step]
    simp

theorem endsOnto_eq_append (p : Pattern) (c : Cursor) (more : List Cursor) :
    endsOnto p c more = ends p c ++ more := by
  induction p generalizing c more with
  | char d => exact advance_eq_append ..
  | oneOf items => exact advance_eq_append ..
  | boundary => simp only [ends, endsOnto]; split <;> rfl
  | seq p q _ ihq =>
    simp only [ends, endsOnto]
    rw [foldr_onto ihq, foldr_onto ihq]
    simp
  | alt p q ihp ihq =>
    simp only [ends, endsOnto]
    rw [ihp, ihq c more, ihp c (q.endsOnto c []), ihq c []]
    simp
  | star p => exact rounds_eq_append ..

theorem ends_char (d : Char) (c : Cursor) : (char d).ends c = advance (· == d) c [] := rfl

theorem ends_oneOf (items : List ClassItem) (c : Cursor) :
    (oneOf items).ends c = advance (fun d => items.any (·.contains d)) c [] := rfl

theorem ends_boundary (c : Cursor) : boundary.ends c = if c.atBoundary then [c] else [] := rfl

/-- The second pattern goes on at each end of the first. -/
theorem ends_seq (p q : Pattern) (c : Cursor) :
    (seq p q).ends c = (p.ends c).flatMap q.ends := by
  have h := foldr_onto (endsOnto_eq_append q) (p.ends c) []
  simpa [ends, endsOnto] using h

/-- The ends of the first alternative come first. -/
theorem ends_alt (p q : Pattern) (c : Cursor) : (alt p q).ends c = p.ends c ++ q.ends c := by
  simp only [ends, endsOnto]
  exact endsOnto_eq_append ..

theorem ends_star (p : Pattern) (c : Cursor) : (star p).ends c = roundEnds p.ends c.ahead c := rfl

@[simp] theorem roundEnds_nil (round : Cursor → List Cursor) (c : Cursor) :
    roundEnds round [] c = [c] := rfl

/-- One more round is preferred to stopping. -/
theorem roundEnds_cons (round : Cursor → List Cursor) (b : Char) (budget : Text) (c : Cursor) :
    roundEnds round (b :: budget) c =
      ((round c).filter fun d => c.position < d.position).flatMap (roundEnds round budget) ++
        [c] := by
  have step : ∀ d later, (if c.position < d.position then rounds round budget d later else later)
      = (if c.position < d.position then roundEnds round budget d else []) ++ later := by
    intro d later
    split
    · exact rounds_eq_append ..
    · rfl
  simp only [roundEnds, rounds]
  rw [foldr_onto step]
  congr 1
  induction round c with
  | nil => rfl
  | cons d l ih => by_cases h : c.position < d.position <;> simp [h, ih]

/-! ## The preferred match -/

/-- The end of the preferred match that starts at a cursor. -/
def matchEnd? (p : Pattern) (c : Cursor) : Option Cursor := (p.ends c).head?

/-- The end of the preferred match that starts at a cursor and leaves nothing of the text. -/
def fullMatchEnd? (p : Pattern) (c : Cursor) : Option Cursor :=
  (p.ends c).find? (·.ahead.isEmpty)

end Pattern

end DottedNames
