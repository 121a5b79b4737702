import DottedNames.Pattern

/-!
# Searching a window of a text

A pattern is tried inside a window of a text, given by two integers that are clamped to the text.
The text ends where the window ends, and matching starts inside the window; what stands before the
window is seen by a word boundary and by nothing else. A window that ends before it starts holds no
match.

`matchSpan?` and `fullMatchSpan?` try the start of the window only. `search?` takes the leftmost
place at which there is a match, and `findAll` goes on behind each match, so that the spans it finds
are disjoint.
-/

namespace DottedNames

/-- A stretch of a text: the positions from `start` up to but excluding `stop`. -/
structure Span where
  /-- The position of the first character. -/
  start : Nat
  /-- The position behind the last character. -/
  stop : Nat
deriving DecidableEq

namespace Span

/-- The characters of a text that lie in the span. -/
def slice (s : Span) (t : Text) : Text := (t.drop s.start).take (s.stop - s.start)

end Span

/-- An integer as a position in a text of the given length, clamped to its two ends. -/
def clampPosition (length : Nat) (i : Int) : Nat := min i.toNat length

/-- The cursor at the start of the window from `pos` to `endpos`, with the text cut where the window
ends; `none` if the window ends before it starts. -/
def Cursor.ofWindow? (t : Text) (pos endpos : Int) : Option Cursor :=
  let start := clampPosition t.length pos
  let stop := clampPosition t.length endpos
  if start ≤ stop then some (.ofText (t.take stop) start) else none

namespace Pattern

/-- The span of the preferred match that starts at a cursor. -/
def spanAt? (p : Pattern) (c : Cursor) : Option Span :=
  (p.matchEnd? c).map fun e => ⟨c.position, e.position⟩

/-- The span of the leftmost match that starts at a cursor or further on. -/
def searchFrom? (p : Pattern) (position : Nat) (before : Option Char) : Text → Option Span
  | [] => p.spanAt? ⟨position, before, []⟩
  | c :: ahead =>
    match p.spanAt? ⟨position, before, c :: ahead⟩ with
    | some s => some s
    | none => searchFrom? p (position + 1) (some c) ahead

/-- The spans of the matches that start at position `free` or further on, each behind the one
before it. -/
def findFrom (p : Pattern) (free position : Nat) (before : Option Char) : Text → List Span
  | [] => if free ≤ position then (p.spanAt? ⟨position, before, []⟩).toList else []
  | c :: ahead =>
    if position < free then findFrom p free (position + 1) (some c) ahead
    else
      match p.spanAt? ⟨position, before, c :: ahead⟩ with
      | some s => s :: findFrom p s.stop (position + 1) (some c) ahead
      | none => findFrom p free (position + 1) (some c) ahead

/-! ## The four ways to try a pattern on a window -/

/-- The span of the match at the start of the window. -/
def matchSpan? (p : Pattern) (t : Text) (pos endpos : Int) : Option Span :=
  (Cursor.ofWindow? t pos endpos).bind p.spanAt?

/-- The span of the match of the whole window. -/
def fullMatchSpan? (p : Pattern) (t : Text) (pos endpos : Int) : Option Span :=
  (Cursor.ofWindow? t pos endpos).bind fun c =>
    (p.fullMatchEnd? c).map fun e => ⟨c.position, e.position⟩

/-- The span of the leftmost match in the window. -/
def search? (p : Pattern) (t : Text) (pos endpos : Int) : Option Span :=
  (Cursor.ofWindow? t pos endpos).bind fun c => p.searchFrom? c.position c.before c.ahead

/-- The spans of all matches in the window, from left to right and disjoint. -/
def findAll (p : Pattern) (t : Text) (pos endpos : Int) : List Span :=
  match Cursor.ofWindow? t pos endpos with
  | some c => p.findFrom c.position c.position c.before c.ahead
  | none => []

end Pattern

end DottedNames
