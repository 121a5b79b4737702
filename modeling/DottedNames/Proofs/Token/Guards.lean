import DottedNames.Proofs.Grammar.Finding
import DottedNames.Proofs.Token.Run
import Mathlib.Data.List.Sort

/-!
# Tokens as guarded matches

Finding all dotted names and scanning for tokens walk along a text out of step: finding goes on
behind every match, scanning only behind those that stand free of other words. Still the tokens are
the matches that stand free. A token cannot start inside a match, for there the character before
it belongs to the match; so finding gets to the place of every token. Both lists come from left to
right, hence it is enough to compare their members.
-/

namespace DottedNames

/-- Whether a span of a text stands free of other words: no word character and no dot just before
it, no word character just behind it. -/
def Span.standsFree (t : Text) (s : Span) : Bool :=
  (s.start == 0 || t[s.start - 1]?.any fun x => !Text.isWordChar x && x != '.') &&
    (s.stop == t.length || t[s.stop]?.any fun x => !Text.isWordChar x)

/-- The token that lies in a span of a text. -/
def Token.ofSpan (t : Text) (s : Span) : Token := ⟨s.slice t, s.start, s.stop⟩

open Grammar

namespace Token

variable {t : Text} {d e : Cursor} {s : Span} {token : Token} {i : Nat} {f : Char → Bool}

/-! ## The neighbours of a span -/

theorem forall_before_iff (hi : i ≤ t.length) :
    (∀ x ∈ (Cursor.ofText t i).before, f x = true) ↔
      (i == 0 || t[i - 1]?.any f) = true := by
  cases i with
  | zero => simp [Cursor.ofText]
  | succ i =>
    have hget : t[i]? = some t[i] := List.getElem?_eq_getElem hi
    have hbefore : (Cursor.ofText t (i + 1)).before = some t[i] := by
      rw [Cursor.ofText, List.take_add_one, hget, Option.toList_some, List.getLast?_concat]
    rw [hbefore, Nat.add_sub_cancel, hget]
    simp

theorem forall_head?_ahead_iff (hi : i ≤ t.length) :
    (∀ x ∈ (Cursor.ofText t i).ahead.head?, f x = true) ↔
      (i == t.length || t[i]?.any f) = true := by
  by_cases hend : i = t.length
  · simp [Cursor.ofText, hend]
  · have hlt : i < t.length := by omega
    simp [Cursor.ofText, hend, List.getElem?_eq_getElem hlt]

theorem standsFree_iff (hstart : s.start ≤ t.length) (hstop : s.stop ≤ t.length) :
    s.standsFree t = true ↔
      (∀ x ∈ (Cursor.ofText t s.start).before, Text.isRunChar x = false) ∧
        runsOn (.ofText t s.stop) = false := by
  rw [Span.standsFree, Bool.and_eq_true, ← forall_before_iff hstart,
    ← forall_head?_ahead_iff hstop, runsOn_eq_false_iff]
  simp [Text.isRunChar]

/-! ## Matches and tokens at the same place -/

theorem matchSpan?_length (hi : i ≤ t.length) :
    dottedName.matchSpan? t i t.length = dottedName.spanAt? (.ofText t i) := by
  rw [Pattern.matchSpan?, Cursor.ofWindow?_length, clampPosition_natCast hi,
    Option.bind_some]

theorem matchEnd?_of_mem_findAll (hs : s ∈ dottedName.findAll t 0 t.length) :
    s.start ≤ s.stop ∧ s.stop ≤ t.length ∧
      dottedName.matchEnd? (.ofText t s.start) = some (.ofText t s.stop) := by
  obtain ⟨-, hlt, hstop⟩ := advances_dottedName.bounds_findAll hs
  rw [clampPosition_natCast le_rfl] at hstop
  have hmatch := advances_dottedName.matchSpan?_of_mem hs
  rw [matchSpan?_length (by omega)] at hmatch
  obtain ⟨e, he, hspan⟩ := Option.map_eq_some_iff.1 hmatch
  obtain ⟨u, hread⟩ := Pattern.exists_reads_of_mem_ends (List.mem_of_head? he)
  have hposition : e.position = s.stop := congrArg Span.stop hspan
  rw [he, hread.eq_ofText, hposition]
  exact ⟨hlt.le, hstop, rfl⟩

/-- Finding gets to the place of every token. -/
theorem span_mem_findAll (hi : i ≤ t.length) (hat : at? (.ofText t i) = some (token, e)) :
    ⟨i, e.position⟩ ∈ dottedName.findAll t 0 t.length := by
  obtain ⟨-, name, hname, hread, -, -⟩ := at?_eq_some_iff.1 hat
  have hmatch := matchEnd?_dottedName_eq_some_iff.2 ⟨name, hname, hread⟩
  have hspan : dottedName.matchSpan? t i t.length ≠ none := by
    rw [matchSpan?_length hi, Pattern.spanAt?, hmatch]
    exact Option.some_ne_none _
  have hinWindow : i ≤ clampPosition t.length t.length := by rwa [clampPosition_natCast le_rfl]
  have hcovered : ∃ r ∈ dottedName.findAll t 0 t.length, r.Covers i :=
    advances_dottedName.exists_covers (by simp [clampPosition]) hinWindow hspan
  obtain ⟨r, hr, hstart, hstop⟩ := hcovered
  obtain ⟨-, hlength, hfound⟩ := matchEnd?_of_mem_findAll hr
  by_cases hinside : r.start < i
  · -- A token cannot start inside the match that covers its place.
    obtain ⟨u, hu⟩ := Cursor.exists_reads_ofText (t := t) hinside.le
    have hne : u ≠ [] := by
      rintro rfl
      have hposition := hu.position_eq
      rw [Cursor.position_ofText hi, Cursor.position_ofText (by omega)] at hposition
      simp only [List.length_nil] at hposition
      omega
    have hlt : (Cursor.ofText t i).position < (Cursor.ofText t r.stop).position := by
      rw [Cursor.position_ofText hi, Cursor.position_ofText hlength]
      exact hstop
    rw [at?_eq_none_of_inside_match hfound hu hne hlt] at hat
    cases hat
  · obtain rfl : r.start = i := by omega
    have hend : e.position = r.stop := by
      rw [Option.some.inj (hmatch.symm.trans hfound), Cursor.position_ofText hlength]
    rw [hend]
    exact hr

theorem ofSpan_eq {name : Text} (hi : i ≤ t.length) (hread : (Cursor.ofText t i).Reads name e) :
    ofSpan t ⟨i, e.position⟩ = ⟨name, i, e.position⟩ := by
  have hwithin : (Cursor.ofText t i).Within t := by
    simpa using Cursor.within_ofText hi le_rfl
  have hslice := hwithin.slice_eq hread
  rw [Cursor.position_ofText hi] at hslice
  rw [ofSpan, hslice]

theorem mem_scan_iff_exists_span :
    token ∈ scan t ↔ ∃ s ∈ dottedName.findAll t 0 t.length,
      s.standsFree t = true ∧ ofSpan t s = token := by
  rw [mem_scan_iff]
  constructor
  · rintro ⟨d, hd, e, hat⟩
    have hi := Cursor.position_le_of_mem_all hd
    rw [Cursor.eq_ofText_of_mem_all hd] at hat
    generalize d.position = i at hi hat
    obtain ⟨⟨x, -, hstart⟩, name, -, hread, hruns, rfl⟩ := at?_eq_some_iff.1 hat
    have hfound := span_mem_findAll hi hat
    have hlength := (matchEnd?_of_mem_findAll hfound).2.1
    refine ⟨_, hfound, (standsFree_iff hi hlength).2 ⟨fun y hy => ?_, ?_⟩, ?_⟩
    · obtain ⟨hword, hdot⟩ := (startsAt_iff.1 hstart).2 y hy
      simp [Text.isRunChar, hword, hdot]
    · rw [← hread.eq_ofText]
      exact hruns
    · rw [ofSpan_eq hi hread, Cursor.position_ofText hi]
  · rintro ⟨s, hs, hfree, rfl⟩
    obtain ⟨hle, hlength, hfound⟩ := matchEnd?_of_mem_findAll hs
    obtain ⟨name, hname, hread⟩ := matchEnd?_dottedName_eq_some_iff.1 hfound
    obtain ⟨hbefore, hruns⟩ := (standsFree_iff (hle.trans hlength) hlength).1 hfree
    have hstart := Run.exists_startsAt hbefore hname.holds
    have htoken := ofSpan_eq (hle.trans hlength) hread
    rw [Cursor.position_ofText hlength] at htoken
    refine ⟨.ofText t s.start, Cursor.ofText_mem_all t s.start, .ofText t s.stop, ?_⟩
    refine at?_eq_some_iff.2 ⟨hstart, name, hname, hread, hruns, ?_⟩
    rw [htoken, Cursor.position_ofText (hle.trans hlength), Cursor.position_ofText hlength]

end Token

/-- The tokens of a text are the matches of dotted names that stand free, in the order in which
they are found. -/
theorem Datum.tokens_eq_filter_findAll (t : Text) :
    (Datum.text t).tokens = .ok (((dottedName.findAll t 0 t.length).filter
      (Span.standsFree t)).map (Token.ofSpan t)) := by
  have hscan : (Token.scan t).Pairwise fun a b => a.start < b.start := Token.pairwise_scan t
  have hfound : (((dottedName.findAll t 0 t.length).filter (Span.standsFree t)).map
      (Token.ofSpan t)).Pairwise fun a b => a.start < b.start := by
    refine List.pairwise_map.2
      (((advances_dottedName.pairwise_findAll t 0 t.length).imp ?_).filter _)
    exact fun hlt => Int.ofNat_lt.2 hlt.1
  have : Std.Irrefl fun a b : Token => a.start < b.start := ⟨fun a => Int.lt_irrefl a.start⟩
  have : Std.Antisymm fun a b : Token => a.start < b.start :=
    ⟨fun a b hab hba => absurd hab (Int.lt_asymm hba)⟩
  have hlists := hscan.eq_of_mem_iff hfound fun token => by
    rw [Token.mem_scan_iff_exists_span, List.mem_map]
    simp only [List.mem_filter, and_assoc]
  exact congrArg Except.ok hlists

-- In `1a b` the match `a` runs into the digit before it.
example : (dottedName.findAll ['1', 'a', ' ', 'b'] 0 4).filter
    (Span.standsFree ['1', 'a', ' ', 'b']) = [⟨3, 4⟩] := by decide +kernel

end DottedNames
