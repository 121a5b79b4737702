import DottedNames.Proofs.Text.Stretch
import DottedNames.Proofs.Token.Scan

/-!
# Tokens by runs

A second description of the tokens of a text, without scanning. The text is cut into runs, which are
its maximal stretches of word characters and dots. A run contributes the longest prefix of it that
may be recognised, provided that the prefix ends with the run or in front of a dot, and otherwise
nothing. The two descriptions agree (`Token.scan_eq_filterMap_runs`): a token cannot start but at
the start of a run, and whether it may end where it does can be told from the run alone.
-/

namespace DottedNames

open Grammar

/-- A word character of any alphabet or a dot. -/
def Text.isRunChar (x : Char) : Bool := Text.isWordChar x || x == '.'

/-- A stretch of word characters and dots in a text. -/
structure Run where
  /-- The position of the first character. -/
  start : Nat
  /-- The characters. -/
  text : Text
deriving DecidableEq

namespace Run

/-- The run that starts at a cursor: there is none behind a character that belongs to a run, and
otherwise it goes on as long as it can. -/
def at? (c : Cursor) : Option Run :=
  if c.before.any Text.isRunChar || !c.ahead.head?.any Text.isRunChar then none
  else some ⟨c.position, c.ahead.takeWhile Text.isRunChar⟩

/-- The runs of a text, from left to right. -/
def ofText (t : Text) : List Run := (Cursor.all t).filterMap at?

/-- A run is a maximal stretch of word characters and dots in a text. -/
structure IsMaximal (t : Text) (r : Run) : Prop where
  /-- The stretch is not empty. -/
  ne_nil : r.text ≠ []
  /-- It has word characters and dots only. -/
  isRunChar : ∀ x ∈ r.text, Text.isRunChar x = true
  /-- It stands in the text at its start, and no neighbour of it belongs to it. -/
  split : ∃ u v, t = u ++ r.text ++ v ∧ r.start = u.length ∧
    (∀ x ∈ u.getLast?, Text.isRunChar x = false) ∧ ∀ x ∈ v.head?, Text.isRunChar x = false

/-- The token that a run contributes. -/
def token? (r : Run) : Option Token :=
  match Text.longestPrefix? (Eligible r.text) r.text with
  | some t =>
    if (r.text.drop t.length).head?.all (· == '.') then
      some ⟨t, r.start, (r.start + t.length : Nat)⟩
    else none
  | none => none

variable {c d : Cursor} {r : Run} {t : Text}

/-! ## Runs -/

theorem isRunChar_of_isNameChar {x : Char} (h : Text.isNameChar x = true) :
    Text.isRunChar x = true := by
  simp [Text.isRunChar, Text.isWordChar_of_isNameChar h]

theorem isRunChar_dot : Text.isRunChar '.' = true := by simp [Text.isRunChar]

theorem isWordChar_dot : Text.isWordChar '.' = false := by decide +kernel

/-- Of the characters of a run, only the dot is no word character. -/
theorem isWordChar_eq_false_iff {x : Char} (h : Text.isRunChar x = true) :
    Text.isWordChar x = false ↔ x = '.' := by
  constructor
  · intro hword
    simpa [Text.isRunChar, hword] using h
  · rintro rfl
    exact isWordChar_dot

theorem at?_eq_some_iff :
    at? c = some r ↔ (∀ x ∈ c.before, Text.isRunChar x = false) ∧
      (∃ x ∈ c.ahead.head?, Text.isRunChar x = true) ∧
      r = ⟨c.position, c.ahead.takeWhile Text.isRunChar⟩ := by
  unfold at?
  rw [eq_comm (a := r)]
  cases c.before <;> cases c.ahead.head? <;> simp [and_assoc]

/-- The run at a cursor of a text is a maximal stretch of it. -/
theorem isMaximal_of_at? (hd : d ∈ Cursor.all t) (hat : at? d = some r) : r.IsMaximal t := by
  obtain ⟨u, hread⟩ := Cursor.mem_all_iff.1 hd
  obtain ⟨hbefore, ⟨x, hx, hrun⟩, rfl⟩ := at?_eq_some_iff.1 hat
  refine ⟨fun hnil => ?_, fun y hy => List.mem_takeWhile_imp hy,
    u, d.ahead.dropWhile Text.isRunChar, ?_, ?_, fun y hy => ?_, Text.forall_head?_dropWhile⟩
  · change d.ahead.takeWhile Text.isRunChar = [] at hnil
    have hhead := List.head?_takeWhile (p := Text.isRunChar) (l := d.ahead)
    rw [hnil, Option.mem_def.1 hx, Option.filter_some, if_pos hrun] at hhead
    cases hhead
  · rw [List.append_assoc, List.takeWhile_append_dropWhile]
    exact hread.ahead_eq
  · simpa using hread.position_eq
  · refine hbefore y ?_
    rw [hread.before_eq, Option.mem_def.1 hy]
    rfl

/-- A maximal stretch of a text is the run at the cursor in front of it. -/
theorem IsMaximal.exists_at? (h : r.IsMaximal t) : ∃ d ∈ Cursor.all t, at? d = some r := by
  obtain ⟨hne, hrun, u, v, rfl, hstart, hleft, hright⟩ := h
  obtain ⟨d, hread⟩ := Cursor.exists_reads (c := ⟨0, none, u ++ r.text ++ v⟩) (t := u)
    (by simp)
  have hahead : d.ahead = r.text ++ v := by
    rw [← hread.drop_ahead]
    simp
  refine ⟨d, Cursor.mem_all_iff.2 ⟨u, hread⟩, at?_eq_some_iff.2 ⟨?_, ?_, ?_⟩⟩
  · rw [hread.before_eq, Option.or_none]
    exact hleft
  · obtain ⟨x, xs, hxs⟩ := List.exists_cons_of_ne_nil hne
    exact ⟨x, by simp [hahead, hxs], hrun x (by simp [hxs])⟩
  · rw [hahead, Text.takeWhile_append_eq hrun hright, hread.position_eq]
    simp [← hstart]

/-- The runs of a text are its maximal stretches. -/
theorem mem_ofText_iff : r ∈ ofText t ↔ r.IsMaximal t := by
  rw [ofText, List.mem_filterMap]
  constructor
  · rintro ⟨d, hd, hat⟩
    exact isMaximal_of_at? hd hat
  · exact IsMaximal.exists_at?

/-- The runs come from left to right. -/
theorem pairwise_ofText (t : Text) : (ofText t).Pairwise fun r s => r.start < s.start := by
  refine List.Pairwise.filterMap at? (fun c d hcd r hr s hs => ?_)
    (Cursor.pairwise_onwards 0 none t)
  obtain ⟨-, -, rfl⟩ := at?_eq_some_iff.1 hr
  obtain ⟨-, -, rfl⟩ := at?_eq_some_iff.1 hs
  exact hcd

/-! ## What a run contributes -/

theorem isRunChar_of_mem_dottedNames (h : t ∈ dottedNames) :
    ∀ x ∈ t, Text.isRunChar x = true := by
  intro x hx
  rcases isNameChar_or_dot_of_mem_dottedNames h x hx with hname | rfl
  · exact isRunChar_of_isNameChar hname
  · exact isRunChar_dot

/-- What may be recognised can be told from the run. -/
theorem eligible_takeWhile_iff {ahead : Text} :
    Eligible (ahead.takeWhile Text.isRunChar) t ↔ Eligible ahead t := by
  have hstops : t <+: ahead.takeWhile Text.isRunChar →
      ((∀ x ∈ ((ahead.takeWhile Text.isRunChar).drop t.length).head?, Text.isNameChar x = false) ↔
        ∀ x ∈ (ahead.drop t.length).head?, Text.isNameChar x = false) := fun h =>
    Text.forall_head?_drop_takeWhile_iff (fun _ => isRunChar_of_isNameChar) h.length_le
  constructor
  · intro h
    exact ⟨h.isPrefix.trans (List.takeWhile_prefix _), h.mem_dottedNames,
      fun hlast => (hstops h.isPrefix).1 (h.stops hlast)⟩
  · intro h
    have ht := Text.prefix_takeWhile h.isPrefix (isRunChar_of_mem_dottedNames h.mem_dottedNames)
    exact ⟨ht, h.mem_dottedNames, fun hlast => (hstops ht).2 (h.stops hlast)⟩

theorem token?_eq_some_iff {token : Token} :
    token? r = some token ↔ ∃ t, Text.Longest (Eligible r.text) t ∧
      (∀ x ∈ (r.text.drop t.length).head?, x = '.') ∧
      token = ⟨t, r.start, (r.start + t.length : Nat)⟩ := by
  have hlongest := fun t => Text.longestPrefix?_eq_some_iff (P := Eligible r.text) (t := t)
    fun _ h => h.isPrefix
  simp only [← hlongest]
  unfold token?
  cases Text.longestPrefix? (Eligible r.text) r.text with
  | none => simp
  | some t =>
    simp only [Option.some_inj, exists_eq_left']
    rw [eq_comm (a := token)]
    cases (r.text.drop t.length).head? <;> simp

/-- Where no run starts, no token does. -/
theorem token_at?_eq_none (h : at? c = none) : Token.at? c = none := by
  by_contra hsome
  obtain ⟨⟨token, e⟩, hsome⟩ := Option.ne_none_iff_exists'.1 hsome
  obtain ⟨⟨x, hx, hstart⟩, -⟩ := Token.at?_eq_some_iff.1 hsome
  obtain ⟨hname, hbefore⟩ := Token.startsAt_iff.1 hstart
  have hrun : at? c = some ⟨c.position, c.ahead.takeWhile Text.isRunChar⟩ := by
    refine at?_eq_some_iff.2 ⟨fun y hy => ?_, ⟨x, hx, ?_⟩, rfl⟩
    · obtain ⟨hword, hdot⟩ := hbefore y hy
      simp [Text.isRunChar, hword, hdot]
    · rcases hname with hletter | rfl
      · exact isRunChar_of_isNameChar (isNameChar_of_isAlpha hletter)
      · exact isRunChar_of_isNameChar (by decide)
  rw [h] at hrun
  cases hrun

/-- Whether a token may end where it does can be told from the run. -/
theorem runsOn_eq_false_iff_of_reads (ht : Eligible c.ahead t) (hread : c.Reads t d) :
    Token.runsOn d = false ↔
      ∀ x ∈ ((c.ahead.takeWhile Text.isRunChar).drop t.length).head?, x = '.' := by
  have hle : t.length ≤ (c.ahead.takeWhile Text.isRunChar).length :=
    (eligible_takeWhile_iff.2 ht).isPrefix.length_le
  have hword : ∀ x, Text.isWordChar x = true → Text.isRunChar x = true := by
    intro x hx
    simp [Text.isRunChar, hx]
  rw [Token.runsOn_eq_false_iff, ← hread.drop_ahead,
    ← Text.forall_head?_drop_takeWhile_iff hword hle]
  refine forall₂_congr fun x hx => isWordChar_eq_false_iff ?_
  exact List.mem_takeWhile_imp (List.mem_of_mem_drop (List.mem_of_mem_head? hx))

/-- What a run contributes can start behind the character before the run. -/
theorem exists_startsAt (hbefore : ∀ x ∈ c.before, Text.isRunChar x = false)
    (ht : Eligible c.ahead t) : ∃ x ∈ c.ahead.head?, Token.startsAt c.before x = true := by
  obtain ⟨x, hx, hname⟩ := head?_of_mem_dottedNames ht.mem_dottedNames
  obtain ⟨rest, hrest⟩ := ht.isPrefix
  refine ⟨x, ?_, Token.startsAt_iff.2 ⟨hname, fun y hy => ?_⟩⟩
  · rw [← hrest, List.head?_append, Option.mem_def.1 hx]
    rfl
  · have hy' := hbefore y hy
    simpa [Text.isRunChar] using hy'

/-- Where a run starts, the token is the one that the run contributes. -/
theorem token_at?_eq_token? (h : at? c = some r) : (Token.at? c).map Prod.fst = token? r := by
  obtain ⟨hbefore, -, rfl⟩ := at?_eq_some_iff.1 h
  ext token
  rw [token?_eq_some_iff]
  simp only [Text.Longest.congr fun t => eligible_takeWhile_iff]
  constructor
  · intro h
    obtain ⟨⟨token, e⟩, hat, rfl⟩ := Option.map_eq_some_iff.1 h
    obtain ⟨-, t, ht, hread, hruns, rfl⟩ := Token.at?_eq_some_iff.1 hat
    refine ⟨t, ht, (runsOn_eq_false_iff_of_reads ht.holds hread).1 hruns, ?_⟩
    rw [hread.position_eq]
  · rintro ⟨t, ht, hdot, rfl⟩
    obtain ⟨e, hread⟩ := Cursor.exists_reads ht.holds.isPrefix
    have hruns := (runsOn_eq_false_iff_of_reads ht.holds hread).2 hdot
    have hstart := exists_startsAt hbefore ht.holds
    refine Option.map_eq_some_iff.2 ⟨⟨_, e⟩, Token.at?_eq_some_iff.2
      ⟨hstart, t, ht, hread, hruns, rfl⟩, ?_⟩
    rw [hread.position_eq]

/-- At every cursor, the token is the one that the run there contributes. -/
theorem map_token_at? (c : Cursor) : (Token.at? c).map Prod.fst = (at? c).bind token? := by
  cases h : at? c with
  | none => rw [token_at?_eq_none h]; rfl
  | some r => exact token_at?_eq_token? h

end Run

/-- Scanning a text finds what its runs contribute. -/
theorem Token.scan_eq_filterMap_runs (t : Text) : scan t = (Run.ofText t).filterMap Run.token? := by
  rw [Run.ofText, List.filterMap_filterMap, scan_eq_filterMap]
  simp only [Run.map_token_at?]

-- In front of `b` the name ends before the dot. In front of `é` it goes up to the underscore, and
-- there the word runs on.
example : Token.scan ['a', '.', '_', 'b'] = [⟨['a'], 0, 1⟩] := by decide +kernel
example : Token.scan ['a', '.', '_', 'é'] = [] := by decide +kernel

/-- The tokens of a text are those that its maximal stretches of word characters and dots contribute
from left to right, each of them at most one: the longest prefix of the stretch that may be
recognised, if the stretch ends behind it or goes on with a dot. A place that scanning passes over
is none at which another token starts. -/
theorem Datum.tokens_text (t : Text) :
    (Datum.text t).tokens = .ok ((Run.ofText t).filterMap Run.token?) ∧
    (∀ r, r ∈ Run.ofText t ↔ r.IsMaximal t) ∧
    (Run.ofText t).Pairwise (fun r s => r.start < s.start) ∧
    (∀ r token, Run.token? r = some token ↔ ∃ name, Text.Longest (Eligible r.text) name ∧
      (∀ x ∈ (r.text.drop name.length).head?, x = '.') ∧
      token = ⟨name, r.start, (r.start + name.length : Nat)⟩) ∧
    ∀ position token e, Token.at? (.ofText t position) = some (token, e) →
      token ∈ Token.scan t := by
  refine ⟨?_, fun r => Run.mem_ofText_iff, Run.pairwise_ofText t, fun r token => ?_,
    fun position token e h => ?_⟩
  · exact congrArg Except.ok (Token.scan_eq_filterMap_runs t)
  · exact Run.token?_eq_some_iff
  · exact Token.mem_scan_iff.2 ⟨_, Cursor.ofText_mem_all t position, e, h⟩

end DottedNames
