import DottedNames.Pattern.Search
import DottedNames.Proofs.Pattern.Spelling

/-!
# Finding walks along a text

Finding all matches goes on behind each match and, where there is none, behind the next character.
`Pattern.Finds` has one rule for each of the two and one for the end of the text, so that what is
found can be reasoned about by induction over the walk. The walk gets to the end of the text when
every match moves on (`Pattern.Advances`), and then it is what `Pattern.findAll` computes.
-/

namespace DottedNames

/-- The positions of a text that belong to a span. -/
def Span.Covers (s : Span) (i : Nat) : Prop := s.start ≤ i ∧ i < s.stop

namespace Pattern

variable {p : Pattern} {c d e : Cursor} {t : Text} {s : Span} {l : List Span}

/-! ## What a match reads -/

theorem exists_reads_of_mem_roundEnds {round : Cursor → List Cursor}
    (hround : ∀ c d, d ∈ round c → ∃ t, c.Reads t d) {budget : Text}
    (h : d ∈ roundEnds round budget c) : ∃ t, c.Reads t d := by
  induction budget generalizing c with
  | nil =>
    rw [roundEnds_nil, List.mem_singleton] at h
    exact ⟨[], h ▸ .refl c⟩
  | cons b budget ih =>
    rw [roundEnds_cons, List.mem_append, List.mem_flatMap, List.mem_singleton] at h
    rcases h with ⟨e, he, hd⟩ | rfl
    · obtain ⟨t, hce⟩ := hround c e (List.mem_filter.1 he).1
      obtain ⟨u, hed⟩ := ih hd
      exact ⟨t ++ u, hce.trans hed⟩
    · exact ⟨[], .refl d⟩

/-- Whatever the pattern, a match ends where some text has been read. -/
theorem exists_reads_of_mem_ends (h : d ∈ p.ends c) : ∃ t, c.Reads t d := by
  induction p generalizing c d with
  | char x =>
    obtain ⟨y, -, hread⟩ := mem_advance_iff.1 h
    exact ⟨[y], hread⟩
  | oneOf items =>
    obtain ⟨y, -, hread⟩ := mem_advance_iff.1 h
    exact ⟨[y], hread⟩
  | boundary =>
    rw [ends_boundary] at h
    split at h
    · exact ⟨[], List.mem_singleton.1 h ▸ .refl c⟩
    · cases h
  | seq p q ihp ihq =>
    rw [ends_seq, List.mem_flatMap] at h
    obtain ⟨e, he, hd⟩ := h
    obtain ⟨t, hce⟩ := ihp he
    obtain ⟨u, hed⟩ := ihq hd
    exact ⟨t ++ u, hce.trans hed⟩
  | alt p q ihp ihq =>
    rw [ends_alt, List.mem_append] at h
    exact h.elim ihp ihq
  | star p ih => exact exists_reads_of_mem_roundEnds (fun _ _ => ih) h

/-- Every match of the pattern moves on. -/
def Advances (p : Pattern) : Prop := ∀ c d, d ∈ p.ends c → c.position < d.position

theorem Advances.exists_reads (hp : p.Advances) (h : p.matchEnd? c = some e) :
    ∃ t, t ≠ [] ∧ c.Reads t e := by
  have hmem : e ∈ p.ends c := List.mem_of_head? h
  obtain ⟨t, hread⟩ := exists_reads_of_mem_ends hmem
  refine ⟨t, ?_, hread⟩
  rintro rfl
  have hlt := hp c e hmem
  have hposition := hread.position_eq
  simp only [List.length_nil] at hposition
  omega

/-! ## The walk -/

/-- From the cursor on, the walk along the text takes the matches with these spans. -/
inductive Finds (p : Pattern) : Cursor → List Span → Prop
  | stop {c : Cursor} (hend : c.ahead = []) (hnone : p.matchEnd? c = none) : Finds p c []
  | pass {c d : Cursor} {x : Char} {l : List Span} (hnone : p.matchEnd? c = none)
      (hread : c.Reads [x] d) (hrest : Finds p d l) : Finds p c l
  | take {c e : Cursor} {t : Text} {l : List Span} (hmatch : p.matchEnd? c = some e)
      (hread : c.Reads t e) (hne : t ≠ []) (hrest : Finds p e l) :
      Finds p c (⟨c.position, e.position⟩ :: l)

theorem Advances.exists_finds (hp : p.Advances) (c : Cursor) : ∃ l, p.Finds c l := by
  -- Passing a character and taking a match both leave less of the text ahead.
  induction h : c.ahead.length using Nat.strong_induction_on generalizing c with
  | h n ih =>
    cases hmatch : p.matchEnd? c with
    | some e =>
      obtain ⟨t, hne, hread⟩ := hp.exists_reads hmatch
      have hshort := hread.length_ahead
      have hpos := List.length_pos_iff.2 hne
      obtain ⟨l, hl⟩ := ih e.ahead.length (by omega) e rfl
      exact ⟨_, .take hmatch hread hne hl⟩
    | none =>
      obtain ⟨position, before, ahead⟩ := c
      cases ahead with
      | nil => exact ⟨[], .stop rfl hmatch⟩
      | cons x ahead =>
        have hread := Cursor.reads_singleton position before x ahead
        simp only [List.length_cons] at h
        obtain ⟨l, hl⟩ := ih ahead.length (by omega) ⟨position + 1, some x, ahead⟩ rfl
        exact ⟨l, .pass hmatch hread hl⟩

/-! ## The walk is what is computed -/

/-- The spans of the matches that are found from a cursor on. -/
def findOnwards (p : Pattern) (c : Cursor) : List Span :=
  p.findFrom c.position c.position c.before c.ahead

/-- Where finding is free to go on only matters as long as it lies ahead. -/
theorem findFrom_of_le {free position : Nat} {before : Option Char} {ahead : Text}
    (h : free ≤ position) :
    p.findFrom free position before ahead = p.findFrom position position before ahead := by
  induction ahead generalizing free position before with
  | nil => rw [findFrom, findFrom, if_pos h, if_pos le_rfl]
  | cons x ahead ih =>
    have hbehind : p.findFrom free (position + 1) (some x) ahead =
        p.findFrom position (position + 1) (some x) ahead := by
      rw [ih (by omega), ih (Nat.le_succ position)]
    rw [findFrom, findFrom, if_neg (by omega), if_neg (by omega), hbehind]

/-- Finding passes over what a match has read. -/
theorem findFrom_of_reads (h : c.Reads t e) :
    p.findFrom e.position c.position c.before c.ahead = p.findOnwards e := by
  induction t generalizing c with
  | nil =>
    obtain rfl := h.unique (.refl c)
    rfl
  | cons x t ih =>
    obtain ⟨d, hcd, hde⟩ := Cursor.Reads.split (t := [x]) h
    have hlt : c.position < e.position := by
      have hposition := h.position_eq
      simp only [List.length_cons] at hposition
      omega
    obtain ⟨position, before, ahead, rfl, rfl⟩ := hcd.exists_eq
    rw [findFrom, if_pos hlt]
    exact ih hde

theorem findOnwards_of_none (hnone : p.matchEnd? c = none) {x : Char} (hread : c.Reads [x] d) :
    p.findOnwards c = p.findOnwards d := by
  obtain ⟨position, before, ahead, rfl, rfl⟩ := hread.exists_eq
  rw [findOnwards, findFrom, if_neg (Nat.lt_irrefl _), spanAt?, hnone]
  exact findFrom_of_le (Nat.le_succ position)

theorem findOnwards_of_some (hmatch : p.matchEnd? c = some e) (hread : c.Reads t e)
    (hne : t ≠ []) : p.findOnwards c = ⟨c.position, e.position⟩ :: p.findOnwards e := by
  obtain ⟨x, t, rfl⟩ := List.exists_cons_of_ne_nil hne
  obtain ⟨d, hcd, hde⟩ := Cursor.Reads.split (t := [x]) hread
  obtain ⟨position, before, ahead, rfl, rfl⟩ := hcd.exists_eq
  rw [findOnwards, findFrom, if_neg (Nat.lt_irrefl _), spanAt?, hmatch]
  exact congrArg (List.cons _) (findFrom_of_reads hde)

theorem Finds.findOnwards_eq (h : p.Finds c l) : p.findOnwards c = l := by
  induction h with
  | @stop c hend hnone =>
    obtain ⟨position, before, ahead⟩ := c
    obtain rfl : ahead = [] := hend
    rw [findOnwards, findFrom, if_pos le_rfl, spanAt?, hnone]
    rfl
  | pass hnone hread _ ih => rw [findOnwards_of_none hnone hread, ih]
  | take hmatch hread hne _ ih => rw [findOnwards_of_some hmatch hread hne, ih]

theorem Advances.finds (hp : p.Advances) (c : Cursor) : p.Finds c (p.findOnwards c) := by
  obtain ⟨l, hl⟩ := hp.exists_finds c
  exact hl.findOnwards_eq ▸ hl

/-! ## What is found -/

/-- Searching stops where the walk takes its first match. -/
theorem Finds.searchFrom?_eq (h : p.Finds c l) :
    p.searchFrom? c.position c.before c.ahead = l.head? := by
  induction h with
  | @stop c hend hnone =>
    obtain ⟨position, before, ahead⟩ := c
    obtain rfl : ahead = [] := hend
    rw [searchFrom?, spanAt?, hnone]
    rfl
  | pass hnone hread _ ih =>
    obtain ⟨position, before, ahead, rfl, rfl⟩ := hread.exists_eq
    rw [searchFrom?, spanAt?, hnone]
    exact ih
  | take hmatch hread hne _ _ =>
    obtain ⟨x, t, rfl⟩ := List.exists_cons_of_ne_nil hne
    obtain ⟨d, hcd, -⟩ := Cursor.Reads.split (t := [x]) hread
    obtain ⟨position, before, ahead, rfl, rfl⟩ := hcd.exists_eq
    rw [searchFrom?, spanAt?, hmatch]
    rfl

theorem Finds.bounds (h : p.Finds c l) :
    ∀ s ∈ l, c.position ≤ s.start ∧ s.start < s.stop ∧ s.stop ≤ c.position + c.ahead.length := by
  induction h with
  | stop => simp
  | @pass c d x l _ hread _ ih =>
    intro s hs
    have hposition := hread.position_eq
    have hlength := hread.length_ahead
    have hlater := ih s hs
    simp only [List.length_singleton] at hposition hlength
    omega
  | @take c e t l _ hread hne _ ih =>
    intro s hs
    have hposition := hread.position_eq
    have hlength := hread.length_ahead
    have hpos := List.length_pos_iff.2 hne
    rcases List.mem_cons.1 hs with rfl | hs
    · simp only
      omega
    · have hlater := ih s hs
      omega

theorem Finds.pairwise (h : p.Finds c l) :
    l.Pairwise fun a b => a.start < b.start ∧ a.stop ≤ b.start := by
  induction h with
  | stop => exact .nil
  | pass _ _ _ ih => exact ih
  | @take c e t l _ hread hne hrest ih =>
    refine List.pairwise_cons.2 ⟨fun s hs => ?_, ih⟩
    have hposition := hread.position_eq
    have hpos := List.length_pos_iff.2 hne
    have hlater := hrest.bounds s hs
    simp only
    omega

/-- A position is covered by at most one of the spans. -/
theorem eq_of_covers {r s : Span} {i : Nat}
    (h : l.Pairwise fun a b => a.start < b.start ∧ a.stop ≤ b.start) (hr : r ∈ l) (hs : s ∈ l)
    (hri : r.Covers i) (hsi : s.Covers i) : r = s := by
  simp only [Span.Covers] at hri hsi
  induction h with
  | nil => cases hr
  | cons hlater _ ih =>
    rcases List.mem_cons.1 hr with rfl | hrest
    · rcases List.mem_cons.1 hs with rfl | hs
      · rfl
      · have hrs := hlater s hs
        omega
    · rcases List.mem_cons.1 hs with rfl | hs
      · have hsr := hlater r hrest
        omega
      · exact ih hrest hs

/-- What is taken is the match at its place. -/
theorem Finds.exists_spanAt? (h : p.Finds c l) (hs : s ∈ l) :
    ∃ t d, c.Reads t d ∧ d.position = s.start ∧ p.spanAt? d = some s := by
  induction h with
  | stop => cases hs
  | pass _ hread _ ih =>
    obtain ⟨t, d, hd, hstart, hspan⟩ := ih hs
    exact ⟨_, d, hread.trans hd, hstart, hspan⟩
  | @take c e t l hmatch hread _ _ ih =>
    rcases List.mem_cons.1 hs with rfl | hs
    · exact ⟨[], c, .refl c, rfl, by rw [spanAt?, hmatch, Option.map_some]⟩
    · obtain ⟨u, d, hd, hstart, hspan⟩ := ih hs
      exact ⟨_, d, hread.trans hd, hstart, hspan⟩

/-- Nothing matches at a place that no match covers. -/
theorem Finds.matchEnd?_eq_none (h : p.Finds c l) (hd : c.Reads t d)
    (hout : ∀ s ∈ l, ¬ s.Covers d.position) : p.matchEnd? d = none := by
  induction h generalizing t with
  | stop hend hnone =>
    obtain rfl : t = [] := List.prefix_nil.1 (hend ▸ hd.isPrefix)
    rw [hd.unique (.refl _)]
    exact hnone
  | @pass c e x l hnone hread _ ih =>
    by_cases ht : t = []
    · subst ht
      rw [hd.unique (.refl c)]
      exact hnone
    · have hle : e.position ≤ d.position := by
        have hpos := List.length_pos_iff.2 ht
        have h1 := hread.position_eq
        have h2 := hd.position_eq
        simp only [List.length_singleton] at h1
        omega
      obtain ⟨u, hed⟩ := hread.between hd hle
      exact ih hed hout
  | @take c e u l hmatch hread _ _ ih =>
    have hfirst := hout _ List.mem_cons_self
    have hle : e.position ≤ d.position := by
      have hposition := hd.position_eq
      simp only [Span.Covers] at hfirst
      omega
    obtain ⟨v, hed⟩ := hread.between hd hle
    exact ih hed fun s hs => hout s (List.mem_cons_of_mem _ hs)

end Pattern

end DottedNames
