import DottedNames.Proofs.Token.Run

/-!
# Scanning piece by piece

A character that belongs to no run separates the tokens before it from those behind it: scanning a
text in which such a character stands finds what scanning the two sides finds, the tokens of the
second side moved behind the character (`Token.scan_append_cons`). This follows from the description
by runs, for no run goes across the character.
-/

namespace DottedNames

open Grammar

/-! ## Moved by some positions -/

/-- The cursor with `n` more positions before it. -/
def Cursor.moved (n : Nat) (c : Cursor) : Cursor := { c with position := n + c.position }

/-- The run with `n` more positions before it. -/
def Run.moved (n : Nat) (r : Run) : Run := { r with start := n + r.start }

/-- The token with `n` more positions before it. -/
def Token.moved (n : Nat) (t : Token) : Token := ⟨t.text, n + t.start, n + t.stop⟩

theorem Cursor.onwards_add (n position : Nat) (before : Option Char) (ahead : Text) :
    onwards (n + position) before ahead = (onwards position before ahead).map (moved n) := by
  induction ahead generalizing position before with
  | nil => rfl
  | cons x ahead ih =>
    rw [onwards, onwards, Nat.add_assoc, ih, List.map_cons]
    rfl

namespace Run

variable {x : Char}

theorem at?_moved (n : Nat) (c : Cursor) : at? (c.moved n) = (at? c).map (moved n) := by
  unfold at? Cursor.moved
  split
  · rfl
  · rfl

theorem token?_moved (n : Nat) (r : Run) : token? (r.moved n) = (token? r).map (Token.moved n) := by
  have hmoved : ∀ t : Text, (⟨t, (r.moved n).start, ((r.moved n).start + t.length : Nat)⟩ : Token) =
      Token.moved n ⟨t, r.start, (r.start + t.length : Nat)⟩ := by
    intro t
    simp only [moved, Token.moved, Token.mk.injEq, true_and]
    omega
  ext token
  rw [token?_eq_some_iff, Option.map_eq_some_iff]
  constructor
  · rintro ⟨t, ht, hdot, rfl⟩
    exact ⟨_, token?_eq_some_iff.2 ⟨t, ht, hdot, rfl⟩, (hmoved t).symm⟩
  · rintro ⟨token, h, rfl⟩
    obtain ⟨t, ht, hdot, rfl⟩ := token?_eq_some_iff.1 h
    exact ⟨t, ht, hdot, (hmoved t).symm⟩

/-! ## A character that belongs to no run -/

/-- What stands behind such a character has no influence on the runs before it. -/
theorem at?_append_cons (hx : Text.isRunChar x = false) (c : Cursor) (rest : Text) :
    at? { c with ahead := c.ahead ++ x :: rest } = at? c := by
  have hhead :
      (c.ahead ++ x :: rest).head?.any Text.isRunChar = c.ahead.head?.any Text.isRunChar := by
    cases c.ahead with
    | nil => simp [hx]
    | cons y ahead => rfl
  simp only [at?, hhead, Text.takeWhile_append_cons hx]

/-- The cursors up to a character of a text, and those behind it. -/
theorem onwards_append_cons (position : Nat) (before : Option Char) (s rest : Text) (x : Char) :
    Cursor.onwards position before (s ++ x :: rest) =
      (Cursor.onwards position before s).map (fun c => { c with ahead := c.ahead ++ x :: rest }) ++
        Cursor.onwards (position + s.length + 1) (some x) rest := by
  induction s generalizing position before with
  | nil => rfl
  | cons y s ih =>
    rw [List.cons_append, Cursor.onwards, ih, Cursor.onwards, List.map_cons, List.cons_append]
    simp only [List.length_cons, List.cons_append]
    rw [Nat.add_assoc position 1, Nat.add_comm 1]

/-- Behind a character that belongs to no run, the runs are those of what follows. -/
theorem filterMap_onwards_some (hx : Text.isRunChar x = false) (position : Nat) (rest : Text) :
    (Cursor.onwards position (some x) rest).filterMap at? =
      (Cursor.onwards position none rest).filterMap at? := by
  cases rest <;> simp [Cursor.onwards, List.filterMap_cons, at?, hx]

/-- No run goes across a character that belongs to none. -/
theorem ofText_append_cons (hx : Text.isRunChar x = false) (s rest : Text) :
    ofText (s ++ x :: rest) = ofText s ++ (ofText rest).map (moved (s.length + 1)) := by
  have hleft : ((Cursor.onwards 0 none s).map fun c : Cursor =>
      { c with ahead := c.ahead ++ x :: rest }).filterMap at? = ofText s := by
    rw [List.filterMap_map]
    exact List.filterMap_congr fun c _ => at?_append_cons hx c rest
  have hright : (Cursor.onwards (0 + s.length + 1) (some x) rest).filterMap at? =
      (ofText rest).map (moved (s.length + 1)) := by
    rw [filterMap_onwards_some hx, Nat.zero_add, ← Nat.add_zero (s.length + 1),
      Cursor.onwards_add, List.filterMap_map, ofText, Cursor.all, List.map_filterMap]
    exact List.filterMap_congr fun c _ => at?_moved _ c
  rw [ofText, Cursor.all, onwards_append_cons, List.filterMap_append, hleft, hright]

end Run

namespace Token

/-- A character that belongs to no run separates the tokens on its two sides. -/
theorem scan_append_cons {x : Char} (hx : Text.isRunChar x = false) (s rest : Text) :
    scan (s ++ x :: rest) = scan s ++ (scan rest).map (moved (s.length + 1)) := by
  simp only [scan_eq_filterMap_runs]
  rw [Run.ofText_append_cons hx, List.filterMap_append, List.filterMap_map, List.map_filterMap]
  congr 1
  exact List.filterMap_congr fun r _ => Run.token?_moved _ r

end Token

end DottedNames
