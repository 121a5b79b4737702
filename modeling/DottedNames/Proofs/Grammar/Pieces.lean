import DottedNames.Proofs.Grammar.Finding

/-!
# Dotted names and their pieces

Finding names in a window finds the pieces of the dotted names in it: where a dotted name is found,
the names found are its pieces one after the other, and finding names then goes on where finding
dotted names does. A piece in front of a dot is the longest name at its place since no name has a
dot, and the last piece is because the dotted name is the longest one.
-/

namespace DottedNames

/-- The spans of texts that stand one behind the other from a position on, with one character
between neighbours. -/
def Span.row (position : Nat) : List Text → List Span
  | [] => []
  | t :: ts => ⟨position, position + t.length⟩ :: row (position + t.length + 1) ts

/-- The spans of the pieces into which a span is cut at its dots. -/
def Span.pieces (t : Text) (s : Span) : List Span := row s.start (QualName.pieces (s.slice t))

variable {c d e : Cursor} {s t u : Text} {l : List Span}

namespace Grammar

/-! ## The longest names at the places of the pieces -/

/-- A segment with its dot in front of a dotted name. -/
theorem mem_ends_dottedName_of_scope (hs : s ∈ segments) (hread : c.Reads (s ++ ['.']) d)
    (h : e ∈ dottedName.ends d) : e ∈ dottedName.ends c := by
  rw [dottedName, Pattern.ends_seq, List.mem_flatMap] at h ⊢
  obtain ⟨x, hx, he⟩ := h
  obtain ⟨v, hv, hdx⟩ := (spells_scopes d x).1 hx
  refine ⟨x, (spells_scopes c x).2 ⟨s ++ '.' :: v, append_mem_scopes hs hv, ?_⟩, he⟩
  rw [← List.singleton_append, ← List.append_assoc]
  exact hread.trans hdx

theorem matchEnd?_name_eq_none (h : dottedName.matchEnd? c = none) : name.matchEnd? c = none := by
  rw [Pattern.matchEnd?_eq_none_iff, List.eq_nil_iff_forall_not_mem] at h ⊢
  exact fun d hd => h d (mem_ends_dottedName_of_name hd)

/-- A dotted name with one piece is the longest name. -/
theorem matchEnd?_name_of_dottedName (h : dottedName.matchEnd? c = some e)
    (he : e ∈ name.ends c) : name.matchEnd? c = some e := by
  have hmax := (greedy_dottedName.matchEnd?_eq_some_iff.1 h).2
  exact greedy_name.matchEnd?_eq_some_iff.2
    ⟨he, fun f hf => hmax f (mem_ends_dottedName_of_name hf)⟩

/-- In front of a dot a segment is the longest name. -/
theorem matchEnd?_name_of_segment (hs : s ∈ segments) (hcd : c.Reads s d) (hde : d.Reads ['.'] e) :
    name.matchEnd? c = some d := by
  refine greedy_name.matchEnd?_eq_some_iff.2 ⟨mem_ends_name_iff.2 (.inl ⟨s, hs, hcd⟩), ?_⟩
  intro f hf
  obtain ⟨n, hn, hcf⟩ := exists_reads_of_mem_ends_name hf
  have hscope : s ++ ['.'] ∈ scopes := append_mem_scopes hs nil_mem_scopes
  have hlt : ([] ++ n : Text).length < (s ++ ['.']).length :=
    length_append_name_lt hscope hn (by simp) (hcd.trans hde).isPrefix hcf.isPrefix
  simp only [List.nil_append, List.length_append, List.length_singleton] at hlt
  have h1 := hcd.position_eq
  have h2 := hcf.position_eq
  by_cases hn' : n = s
  · subst hn'
    exact .inl (hcf.unique hcd)
  · right
    have hne : n.length ≠ s.length := fun h =>
      hn' ((List.prefix_of_prefix_length_le hcf.isPrefix hcd.isPrefix h.le).eq_of_length h)
    simp only [Pattern.Beyond]
    omega

/-- Behind a segment and its dot the rest of the longest dotted name is the longest one. -/
theorem matchEnd?_dottedName_of_scope (h : dottedName.matchEnd? c = some e) (hs : s ∈ segments)
    (hread : c.Reads (s ++ ['.']) d) (he : e ∈ dottedName.ends d) :
    dottedName.matchEnd? d = some e := by
  have hmax := (greedy_dottedName.matchEnd?_eq_some_iff.1 h).2
  exact greedy_dottedName.matchEnd?_eq_some_iff.2
    ⟨he, fun f hf => hmax f (mem_ends_dottedName_of_scope hs hread hf)⟩

theorem matchEnd?_name_at_dot (h : c.Reads ['.'] d) : name.matchEnd? c = none := by
  rw [Pattern.matchEnd?_eq_none_iff, List.eq_nil_iff_forall_not_mem]
  intro e he
  obtain ⟨n, hn, hread⟩ := exists_reads_of_mem_ends_name he
  have hne : n ≠ [] := ne_nil_of_mem_dottedNames ⟨[], nil_mem_scopes, n, hn, rfl⟩
  obtain ⟨x, n, rfl⟩ := List.exists_cons_of_ne_nil hne
  obtain rfl : '.' = x := (List.cons.inj (h.ahead_eq.symm.trans hread.ahead_eq)).1
  exact dot_notMem_of_mem_names hn List.mem_cons_self

/-! ## Walking over a dotted name -/

/-- At a dotted name the walk over names takes its pieces and goes on behind it. -/
theorem finds_row (hmatch : dottedName.matchEnd? c = some e) (hread : c.Reads u e)
    (hrest : name.Finds e l) : name.Finds c (Span.row c.position (QualName.pieces u) ++ l) := by
  have hmem : e ∈ dottedName.ends c := List.mem_of_head? hmatch
  rw [dottedName, Pattern.ends_seq, List.mem_flatMap] at hmem
  obtain ⟨x, hx, hend⟩ := hmem
  obtain ⟨v, hv, hcx⟩ := (spells_scopes c x).1 hx
  induction hv using scopes_induction generalizing c u with
  | nil =>
    obtain rfl := hcx.unique (.refl c)
    obtain ⟨n, hn, hce⟩ := exists_reads_of_mem_ends_name hend
    obtain rfl : n = u := hce.take_ahead.symm.trans hread.take_ahead
    have hpieces : QualName.pieces n = [n] :=
      List.splitOn_eq_singleton (dot_notMem_of_mem_names hn)
    have hne : n ≠ [] := ne_nil_of_mem_dottedNames ⟨[], nil_mem_scopes, n, hn, rfl⟩
    rw [hpieces, Span.row, Span.row, ← hread.position_eq]
    exact .take (matchEnd?_name_of_dottedName hmatch hend) hread hne hrest
  | cons s hs v hv ih =>
    obtain ⟨d, hcd, hdx⟩ := Cursor.Reads.split hcx
    obtain ⟨d', hdd', hdx'⟩ := Cursor.Reads.split (t := ['.']) hdx
    obtain ⟨n, -, hxe⟩ := exists_reads_of_mem_ends_name hend
    have hread' := hdx'.trans hxe
    have hcd' := hcd.trans hdd'
    obtain rfl : s ++ '.' :: (v ++ n) = u := by
      have h := (hcd'.trans hread').take_ahead.symm.trans hread.take_ahead
      simpa using h
    have hpieces : QualName.pieces (s ++ '.' :: (v ++ n)) = s :: QualName.pieces (v ++ n) :=
      List.splitOn_append_cons_self_of_not_mem (dot_notMem_of_mem_segments hs) _
    have hx' : x ∈ (Pattern.star (.seq segment (.char '.'))).ends d' :=
      (spells_scopes d' x).2 ⟨v, hv, hdx'⟩
    have he : e ∈ dottedName.ends d' := by
      rw [dottedName, Pattern.ends_seq, List.mem_flatMap]
      exact ⟨x, hx', hend⟩
    have hlater := ih (matchEnd?_dottedName_of_scope hmatch hs hcd' he) hread' hx' hdx'
    have hne : s ≠ [] := ne_nil_of_mem_dottedNames ⟨[], nil_mem_scopes, s, .inl hs, rfl⟩
    have hposition : c.position + s.length + 1 = d'.position := by
      rw [hdd'.position_eq, hcd.position_eq]
      rfl
    rw [hpieces, Span.row, hposition, ← hcd.position_eq, List.cons_append]
    exact .take (matchEnd?_name_of_segment hs hcd hdd') hcd hne
      (.pass (matchEnd?_name_at_dot hdd') hdd' hlater)

/-- The walk over names takes the pieces of what the walk over dotted names takes. -/
theorem finds_pieces (h : dottedName.Finds c l) (hc : c.Within t) :
    name.Finds c (l.flatMap (Span.pieces t)) := by
  induction h with
  | stop hend hnone => exact .stop hend (matchEnd?_name_eq_none hnone)
  | pass hnone hread _ ih =>
    exact .pass (matchEnd?_name_eq_none hnone) hread (ih (hc.of_reads hread))
  | take hmatch hread _ _ ih =>
    rw [List.flatMap_cons, Span.pieces, hc.slice_eq hread]
    exact finds_row hmatch hread (ih (hc.of_reads hread))

/-- The names in a window are the pieces of the dotted names in it, from left to right. -/
theorem findAll_name_eq_flatMap_pieces (t : Text) (pos endpos : Int) :
    name.findAll t pos endpos = (dottedName.findAll t pos endpos).flatMap (Span.pieces t) := by
  by_cases h : clampPosition t.length pos ≤ clampPosition t.length endpos
  · have hwithin := Cursor.within_ofText h (clampPosition_le t.length endpos)
    have hfinds := finds_pieces (advances_dottedName.finds_window h) hwithin
    rw [Pattern.findAll, Cursor.ofWindow?_of_le h]
    exact hfinds.findOnwards_eq
  · have hlt := Nat.not_le.1 h
    rw [Pattern.findAll_of_lt hlt, Pattern.findAll_of_lt hlt, List.flatMap_nil]

-- In `a.b._c` the underscore runs into `c`, so that both walks go on at `c`.
example : dottedName.findAll ['a', '.', 'b', '.', '_', 'c'] 0 6 = [⟨0, 3⟩, ⟨5, 6⟩] ∧
    name.findAll ['a', '.', 'b', '.', '_', 'c'] 0 6 = [⟨0, 1⟩, ⟨2, 3⟩, ⟨5, 6⟩] := by decide +kernel

end Grammar

end DottedNames
