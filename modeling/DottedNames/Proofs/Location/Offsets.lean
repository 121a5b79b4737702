import DottedNames.Proofs.Command.ScanReport
import DottedNames.Proofs.Operand.Sorting

/-!
# Offsets and locations

The starts of the lines go up from zero, one more than there are line feeds. The location of an
offset names the last start at the offset or before it: the number of its line counts the line feeds
in front of the offset, and the column counts on from the start, over no line feed. From this the
start and so the offset can be computed back, which makes the order of offsets that of their
locations, line before column. Every column of every line is the location of some offset.

All of it is found line by line, as the locations themselves are.
-/

namespace DottedNames

theorem twoTo_pos (n : Nat) : 0 < twoTo n := Nat.pow_pos Nat.two_pos

/-- Integers are ordered as such, although all numbers are compared in units. -/
theorem Operand.related_lt_int (a b : Nat) :
    Operand.related .lt (.datum (.int a)) (.datum (.int b)) = .ok (decide (a < b)) := by
  have hunits : (0 : Int) < BinaryNumber.unitsOfOne := Int.natCast_pos.2 (twoTo_pos 1074)
  have hholds : OrderRelation.lt.holds
      (compare ((a : Int) * BinaryNumber.unitsOfOne) (b * BinaryNumber.unitsOfOne)) =
        decide (a < b) := by
    rw [OrderRelation.holds, Bool.eq_iff_iff, beq_iff_eq, compare_lt_iff_lt,
      Int.mul_lt_mul_right hunits, Int.ofNat_lt, decide_eq_true_iff]
  exact congrArg Except.ok hholds

namespace Location

variable {text l rest : Text} {offset offset' column n s : Nat} {p p' : Location}

/-- The location `p` is where the offset lies in the text. -/
structure Locates (text : Text) (offset : Nat) (p : Location) : Prop where
  one_le_line : 1 ≤ p.line
  /-- The table of line starts has the line. -/
  line_le_length : p.line ≤ (lineStarts text).length
  one_le_column : 1 ≤ p.column
  /-- As many line feeds are in front of the offset as lines are in front of its line. -/
  line_sub_one_eq : p.line - 1 = (text.take offset).count '\n'
  /-- The offset is behind the start of its line, and no line feed is in between. -/
  exists_start : ∃ s, (lineStarts text)[p.line - 1]? = some s ∧ s + p.column - 1 = offset ∧
    '\n' ∉ (text.drop s).take (p.column - 1)
  /-- The lines up to this one start at the offset or before it. -/
  le_of_mem_take : ∀ s ∈ (lineStarts text).take p.line, s ≤ offset
  /-- The lines behind this one start behind the offset. -/
  lt_of_mem_drop : ∀ s ∈ (lineStarts text).drop p.line, offset < s

/-! ## The table of line starts -/

theorem pairwise_lineStarts (text : Text) : (lineStarts text).Pairwise (· < ·) := by
  induction text using Text.lines_induction with
  | last l h =>
    rw [lineStarts_of_notMem h]
    exact List.pairwise_singleton _ _
  | line l rest h ih =>
    rw [lineStarts_append_line h, List.pairwise_cons, List.pairwise_map]
    refine ⟨fun s hs => ?_, ih.imp fun hlt => Nat.add_lt_add_left hlt _⟩
    obtain ⟨k, -, rfl⟩ := List.mem_map.1 hs
    omega

theorem length_lineStarts (text : Text) : (lineStarts text).length = text.count '\n' + 1 := by
  induction text using Text.lines_induction with
  | last l h => rw [lineStarts_of_notMem h, List.count_eq_zero.2 h, List.length_singleton]
  | line l rest h ih =>
    rw [lineStarts_append_line h, List.length_cons, List.length_map, ih, List.count_append,
      List.count_eq_zero.2 h, List.count_cons_self, Nat.zero_add]

/-! ## Where an offset lies -/

theorem drop_append_line : (l ++ '\n' :: rest).drop (l.length + 1 + n) = rest.drop n := by
  rw [List.drop_append, List.drop_eq_nil_of_le (by omega), List.nil_append,
    show l.length + 1 + n - l.length = n + 1 by omega, List.drop_succ_cons]

theorem take_append_line :
    (l ++ '\n' :: rest).take (l.length + 1 + n) = l ++ '\n' :: rest.take n := by
  rw [List.take_append, List.take_of_length_le (by omega),
    show l.length + 1 + n - l.length = n + 1 by omega, List.take_succ_cons]

/-- An offset in front of all line feeds lies in the first line. -/
theorem locates_first_line (h : '\n' ∉ text.take offset)
    (hstarts : ∀ s ∈ startsFrom 0 text, offset < s) : Locates text offset ⟨1, offset + 1⟩ where
  one_le_line := le_rfl
  line_le_length := Nat.le_add_left 1 _
  one_le_column := Nat.le_add_left 1 _
  line_sub_one_eq := (List.count_eq_zero.2 h).symm
  exists_start := ⟨0, rfl, by simp, h⟩
  le_of_mem_take := by simp [lineStarts]
  lt_of_mem_drop := hstarts

/-- An offset behind the first line lies in what follows, one line further down. -/
theorem Locates.below (h : '\n' ∉ l) (hp : Locates rest offset p) :
    Locates (l ++ '\n' :: rest) (l.length + 1 + offset) p.below := by
  obtain ⟨k, hk⟩ : ∃ k, p.line = k + 1 := Nat.exists_eq_add_of_le' hp.one_le_line
  obtain ⟨s, hget, hadd, hfeed⟩ := hp.exists_start
  have hcolumn : 1 ≤ p.column := hp.one_le_column
  have hline := hp.line_sub_one_eq
  have hle := hp.line_le_length
  rw [hk, Nat.add_sub_cancel] at hget hline
  refine ⟨Nat.le_add_left 1 _, ?_, hcolumn, ?_, ⟨l.length + 1 + s, ?_, ?_, ?_⟩, ?_, ?_⟩
  · simpa [lineStarts_append_line h, Location.below] using hle
  · simp [Location.below, take_append_line, List.count_eq_zero.2 h, hk, hline]
  · simp [lineStarts_append_line h, Location.below, hk, hget]
  · simp only [Location.below]
    omega
  · simpa [Location.below, drop_append_line] using hfeed
  · rw [lineStarts_append_line h, Location.below, List.take_succ_cons, ← List.map_take]
    intro t ht
    rcases List.mem_cons.1 ht with rfl | ht
    · exact Nat.zero_le _
    · obtain ⟨u, hu, rfl⟩ := List.mem_map.1 ht
      exact Nat.add_le_add_left (hp.le_of_mem_take u hu) _
  · rw [lineStarts_append_line h, Location.below, List.drop_succ_cons, ← List.map_drop]
    intro t ht
    obtain ⟨u, hu, rfl⟩ := List.mem_map.1 ht
    exact Nat.add_lt_add_left (hp.lt_of_mem_drop u hu) _

/-- Every offset of a text lies where the table of line starts says. -/
theorem locates_ofOffset (h : offset ≤ text.length) :
    Locates text offset (ofOffset (lineStarts text) offset) := by
  induction text using Text.lines_induction generalizing offset with
  | last l hl =>
    rw [ofOffset_only_line hl]
    refine locates_first_line (mt List.mem_of_mem_take hl) ?_
    simp [startsFrom_of_notMem hl]
  | line l rest hl ih =>
    by_cases hfirst : offset ≤ l.length
    · rw [ofOffset_first_line hl hfirst]
      refine locates_first_line ?_ ?_
      · rw [List.take_append_of_le_length hfirst]
        exact mt List.mem_of_mem_take hl
      · intro s hs
        have hstarts : lineStarts (l ++ '\n' :: rest) = _ := lineStarts_append_line hl
        rw [lineStarts, List.cons.injEq] at hstarts
        rw [hstarts.2] at hs
        obtain ⟨k, -, rfl⟩ := List.mem_map.1 hs
        omega
    · obtain ⟨k, rfl⟩ : ∃ k, offset = l.length + 1 + k := Nat.exists_eq_add_of_le (by omega)
      rw [ofOffset_later_line hl]
      refine (ih ?_).below hl
      simp only [List.length_append, List.length_cons] at h
      omega

/-! ## Searching by halving -/

/-- The place behind all line starts that an offset does not precede is that of the line behind its
own: it is found by halving the table. -/
theorem Locates.insertionPoint_eq (hp : Locates text offset p) :
    Operand.insertionPoint (.datum (.int offset))
      ((lineStarts text).map fun s : Nat => .datum (.int s)) 0 (lineStarts text).length =
        .ok p.line := by
  have hsplit := List.take_append_drop p.line (lineStarts text)
  have hlength : ((lineStarts text).take p.line).length = p.line :=
    List.length_take_of_le hp.line_le_length
  have hplace := Operand.insertionPoint_eq
    (fun _ _ => ⟨Operand.related_lt_int _ _, Operand.related_lt_int _ _⟩)
    hp.le_of_mem_take hp.lt_of_mem_drop
    (Nat.zero_le _) (hlength.trans_le hp.line_le_length) (congrArg List.length hsplit).ge
  rw [hsplit, hlength] at hplace
  exact hplace

/-! ## The order of locations -/

/-- Of two offsets the smaller one lies in an earlier line, or in the same line in an earlier
column. -/
theorem Locates.before (hp : Locates text offset p) (hp' : Locates text offset' p')
    (hlt : offset < offset') : p.line < p'.line ∨ p.line = p'.line ∧ p.column < p'.column := by
  have hfeeds : (text.take offset).count '\n' ≤ (text.take offset').count '\n' :=
    (List.take_sublist_take_left hlt.le).count_le _
  rw [← hp.line_sub_one_eq, ← hp'.line_sub_one_eq] at hfeeds
  have hline := hp.one_le_line
  have hline' := hp'.one_le_line
  rcases Nat.lt_or_ge p.line p'.line with hlines | hlines
  · exact .inl hlines
  · have heq : p.line = p'.line := by omega
    obtain ⟨s, hs, hadd, -⟩ := hp.exists_start
    obtain ⟨s', hs', hadd', -⟩ := hp'.exists_start
    rw [heq, hs'] at hs
    cases hs
    exact .inr ⟨heq, by omega⟩

/-! ## Every place is some offset's -/

theorem ofOffset_start_add (hs : (lineStarts text)[n]? = some s) (hle : s + column ≤ text.length)
    (hfeed : '\n' ∉ (text.drop s).take column) :
    ofOffset (lineStarts text) (s + column) = ⟨n + 1, column + 1⟩ := by
  induction text using Text.lines_induction generalizing n s with
  | last l hl =>
    rw [lineStarts_of_notMem hl] at hs
    obtain ⟨rfl, rfl⟩ : n = 0 ∧ s = 0 := by
      cases n <;> simp_all
    rw [ofOffset_only_line hl, Nat.zero_add]
  | line l rest hl ih =>
    rw [lineStarts_append_line hl] at hs
    cases n with
    | zero =>
      cases hs
      have hfirst : column ≤ l.length := by
        by_contra hlong
        obtain ⟨k, rfl⟩ : ∃ k, column = l.length + 1 + k := Nat.exists_eq_add_of_le (by omega)
        rw [List.drop_zero, take_append_line] at hfeed
        exact hfeed (List.mem_append_right _ List.mem_cons_self)
      rw [Nat.zero_add, ofOffset_first_line hl hfirst]
    | succ n =>
      rw [List.getElem?_cons_succ, List.getElem?_map, Option.map_eq_some_iff] at hs
      obtain ⟨k, hk, rfl⟩ := hs
      rw [drop_append_line] at hfeed
      rw [Nat.add_assoc, ofOffset_later_line hl, ih hk ?_ hfeed]
      · rfl
      · simp only [List.length_append, List.length_cons] at hle
        omega

end Location

namespace Command.ScanEntry

open Location

/-- Offsets and locations are in bijection. The starts of the lines go up from zero, one more than
there are line feeds. A token that starts in the text, its end included, is located in the last line
that starts there or before, which is found by halving the table, and the start of this line and the
column give the start of the token back; the locations of two tokens are in the order of their
starts. The other way round, every column of every line is the location of the tokens that start
there. -/
theorem locations_of_starts (text : Text) :
    let starts := lineStarts text
    starts.Pairwise (· < ·) ∧ starts.head? = some 0 ∧ starts.length = text.count '\n' + 1 ∧
    (∀ t : Token, 0 ≤ t.start → t.start ≤ text.length →
      Locates text t.start.toNat (ofToken starts t).location ∧
      Operand.insertionPoint (.datum (.int t.start)) (starts.map fun s : Nat => .datum (.int s)) 0
        starts.length = .ok (ofToken starts t).location.line) ∧
    (∀ t u : Token, 0 ≤ t.start → t.start ≤ text.length → 0 ≤ u.start → u.start ≤ text.length →
      (t.start < u.start ↔ (ofToken starts t).Before (ofToken starts u))) ∧
    (∀ n s column, starts[n]? = some s → s + column ≤ text.length →
      '\n' ∉ (text.drop s).take column →
        ∀ t : Token, t.start = s + column → (ofToken starts t).location = ⟨n + 1, column + 1⟩) := by
  intro starts
  have hlocates : ∀ t : Token, 0 ≤ t.start → t.start ≤ text.length →
      Locates text t.start.toNat (ofToken starts t).location := by
    intro t hstart hend
    exact locates_ofOffset (by omega)
  refine ⟨pairwise_lineStarts text, rfl, length_lineStarts text, ?_, ?_, ?_⟩
  · intro t ht ht'
    have hplace := (hlocates t ht ht').insertionPoint_eq
    rw [Int.toNat_of_nonneg ht] at hplace
    exact ⟨hlocates t ht ht', hplace⟩
  · intro t u ht ht' hu hu'
    have hbefore : ∀ {t u : Token}, 0 ≤ t.start → t.start ≤ text.length → 0 ≤ u.start →
        u.start ≤ text.length → t.start < u.start → (ofToken starts t).Before (ofToken starts u) :=
      fun ht ht' hu hu' hlt => (hlocates _ ht ht').before (hlocates _ hu hu') (by omega)
    refine ⟨hbefore ht ht' hu hu', fun h => ?_⟩
    -- Tokens with one start share their location, and locations are before each other one way only.
    rcases Int.lt_trichotomy t.start u.start with hlt | heq | hgt
    · exact hlt
    · simp [Before, ofToken, heq] at h
    · have h' := hbefore hu hu' ht ht' hgt
      simp only [Before] at h h'
      omega
  · intro n s column hs hle hfeed t ht
    have hstart : t.start.toNat = s + column := by omega
    show ofOffset starts t.start.toNat = _
    rw [hstart, ofOffset_start_add hs hle hfeed]

/-- Behind two line feeds the third line starts, and the end of the text is a place in it, too. -/
theorem locations_of_starts_third_line :
    let text : Text := ['a', '\n', '\n', 'b', '.', 'c']
    let starts := lineStarts text
    let name : Token := ⟨['b', '.', 'c'], 3, 6⟩
    let atEnd : Token := ⟨[], 6, 6⟩
    0 ≤ name.start ∧ name.start ≤ text.length ∧ 0 ≤ atEnd.start ∧ atEnd.start ≤ text.length ∧
      Locates text 3 (ofToken starts name).location ∧
      (ofToken starts name).Before (ofToken starts atEnd) ∧
      starts[2]? = some 3 ∧ '\n' ∉ (text.drop 3).take 3 ∧
      (ofToken starts atEnd).location = ⟨3, 4⟩ := by
  intro text starts name atEnd
  obtain ⟨-, -, -, hlocates, horder, hplaces⟩ := locations_of_starts text
  have hfeed : '\n' ∉ (text.drop 3).take 3 := by decide
  exact ⟨by decide, by decide, by decide, by decide, (hlocates name (by decide) (by decide)).1,
    (horder name atEnd (by decide) (by decide) (by decide) (by decide)).1 (by decide), rfl, hfeed,
    hplaces 2 3 3 rfl (by decide) hfeed atEnd rfl⟩

end Command.ScanEntry

end DottedNames
