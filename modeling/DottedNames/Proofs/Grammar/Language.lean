import DottedNames.Proofs.Pattern.Spelling
import DottedNames.Proofs.Text.Longest
import DottedNames.QualName

/-!
# The languages of names

The shapes of names as sets of texts, said without patterns: a segment, a name (a segment or an
underscore), a dotted name (segments, each with its dot, and then a name). A dotted name is
recognised by its pieces (`mem_dottedNames_iff`): all pieces but the last are segments and the last
is a name.

What is recognised at a place depends a little on what follows: an underscore must not run into
further name characters. `Eligible ahead t` says that the prefix `t` of what is ahead may be
recognised.
-/

namespace DottedNames.Grammar

open scoped Computability

/-- A letter followed by letters, digits and underscores. -/
def segments : Language Char :=
  {t | ∃ c cs, t = c :: cs ∧ c.isAlpha = true ∧ ∀ d ∈ cs, Text.isNameChar d = true}

/-- The bare underscore. -/
def underscore : Language Char := ({['_']} : Set Text)

/-- The dot between two pieces. -/
def dot : Language Char := ({['.']} : Set Text)

/-- A segment or an underscore. -/
def names : Language Char := segments + underscore

/-- Any number of segments, each with its dot. -/
def scopes : Language Char := (segments * dot)∗

/-- Any number of segments, each with its dot, and then a name. -/
def dottedNames : Language Char := scopes * names

variable {s t u : Text} {c : Char}

/-! ## Segments and names -/

theorem underscore_notMem_segments : ['_'] ∉ segments := by
  rintro ⟨c, cs, h, hc, -⟩
  obtain ⟨rfl, -⟩ := List.cons.inj h
  exact absurd hc (by decide)

theorem isNameChar_of_isAlpha (h : c.isAlpha = true) : Text.isNameChar c = true := by
  simp [Text.isNameChar, Char.isAlphanum, h]

theorem isNameChar_of_mem_segments (h : s ∈ segments) : ∀ c ∈ s, Text.isNameChar c = true := by
  obtain ⟨c, cs, rfl, hc, hcs⟩ := h
  intro d hd
  rcases List.mem_cons.1 hd with rfl | hd
  · exact isNameChar_of_isAlpha hc
  · exact hcs d hd

theorem isNameChar_of_mem_names (h : s ∈ names) : ∀ c ∈ s, Text.isNameChar c = true := by
  rcases h with h | rfl
  · exact isNameChar_of_mem_segments h
  · intro c hc
    rw [List.mem_singleton.1 hc]
    decide

theorem dot_notMem_of_mem_names (h : s ∈ names) : '.' ∉ s := by
  intro hdot
  exact absurd (isNameChar_of_mem_names h '.' hdot) (by decide)

theorem dot_notMem_of_mem_segments (h : s ∈ segments) : '.' ∉ s :=
  dot_notMem_of_mem_names (.inl h)

/-- The texts of segments are the names. -/
theorem spells_iff_mem_names : Segment.spells t = true ↔ t ∈ names := Segment.spells_iff

/-- The segments of the grammar are the names other than the underscore. -/
theorem mem_segments_iff : t ∈ segments ↔ Segment.spells t = true ∧ t ≠ ['_'] := by
  rw [spells_iff_mem_names]
  constructor
  · intro h
    exact ⟨.inl h, fun he => underscore_notMem_segments (he ▸ h)⟩
  · rintro ⟨h | h, hne⟩
    · exact h
    · exact absurd h hne

instance : DecidablePred (· ∈ names) := fun _ => decidable_of_iff _ spells_iff_mem_names

instance : DecidablePred (· ∈ segments) := fun _ => decidable_of_iff _ mem_segments_iff.symm

/-! ## Scopes -/

theorem nil_mem_scopes : [] ∈ scopes := Language.nil_mem_kstar _

/-- One more segment in front of scopes. -/
theorem append_mem_scopes (hs : s ∈ segments) (hu : u ∈ scopes) : s ++ '.' :: u ∈ scopes := by
  rw [scopes, ← Language.one_add_self_mul_kstar_eq_kstar]
  refine .inr ⟨s ++ ['.'], Language.append_mem_mul hs rfl, u, hu, ?_⟩
  simp

/-- Scopes are empty, or a segment, a dot and further scopes. -/
theorem mem_scopes_cases (h : u ∈ scopes) :
    u = [] ∨ ∃ s ∈ segments, ∃ v ∈ scopes, u = s ++ '.' :: v := by
  rw [scopes, ← Language.one_add_self_mul_kstar_eq_kstar] at h
  rcases h with rfl | ⟨sd, ⟨s, hs, d, rfl, rfl⟩, v, hv, rfl⟩
  · exact .inl rfl
  · exact .inr ⟨s, hs, v, hv, by simp⟩

/-- Induction over the segments of scopes. -/
@[elab_as_elim]
theorem scopes_induction {motive : (u : Text) → u ∈ scopes → Prop} (nil : motive [] nil_mem_scopes)
    (cons : ∀ s (hs : s ∈ segments) v (hv : v ∈ scopes), motive v hv →
      motive (s ++ '.' :: v) (append_mem_scopes hs hv)) (hu : u ∈ scopes) : motive u hu := by
  induction h : u.length using Nat.strong_induction_on generalizing u with
  | h n ih =>
    rcases mem_scopes_cases hu with rfl | ⟨s, hs, v, hv, rfl⟩
    · exact nil
    · refine cons s hs v hv (ih v.length ?_ hv rfl)
      simp only [List.length_append, List.length_cons] at h
      omega

/-- Scopes that are not empty end with a dot. -/
theorem getLast?_of_mem_scopes (hu : u ∈ scopes) (hne : u ≠ []) : u.getLast? = some '.' := by
  induction hu using scopes_induction with
  | nil => exact absurd rfl hne
  | cons s hs v hv ih =>
    rw [List.getLast?_append, List.getLast?_cons]
    by_cases hv' : v = []
    · simp [hv']
    · simp [ih hv']

/-! ## The characters of a dotted name -/

/-- A dotted name starts with a letter or is an underscore. -/
theorem head?_of_mem_dottedNames (h : t ∈ dottedNames) :
    ∃ x ∈ t.head?, x.isAlpha = true ∨ x = '_' := by
  obtain ⟨u, hu, n, hn, rfl⟩ := h
  rcases mem_scopes_cases hu with rfl | ⟨_, ⟨x, xs, rfl, hx, -⟩, v, -, rfl⟩
  · rcases hn with ⟨x, xs, rfl, hx, -⟩ | rfl
    · exact ⟨x, rfl, .inl hx⟩
    · exact ⟨'_', rfl, .inr rfl⟩
  · exact ⟨x, rfl, .inl hx⟩

theorem ne_nil_of_mem_dottedNames (h : t ∈ dottedNames) : t ≠ [] := by
  rintro rfl
  obtain ⟨x, hx, -⟩ := head?_of_mem_dottedNames h
  cases hx

/-- A dotted name has name characters and dots only. -/
theorem isNameChar_or_dot_of_mem_dottedNames (h : t ∈ dottedNames) :
    ∀ x ∈ t, Text.isNameChar x = true ∨ x = '.' := by
  obtain ⟨u, hu, n, hn, rfl⟩ := h
  intro x hx
  rcases List.mem_append.1 hx with hx | hx
  · induction hu using scopes_induction with
    | nil => cases hx
    | cons s hs v _ ih =>
      rcases List.mem_append.1 hx with hx | hx
      · exact .inl (isNameChar_of_mem_segments hs x hx)
      · rcases List.mem_cons.1 hx with rfl | hx
        · exact .inr rfl
        · exact ih (List.mem_append_left n hx) hx
  · exact .inl (isNameChar_of_mem_names hn x hx)

/-! ## Joined texts -/

variable {ps rs : List Text}

theorem join_cons (hps : ps ≠ []) :
    Text.join ['.'] (t :: ps) = t ++ '.' :: Text.join ['.'] ps := by
  have h : Text.join ['.'] (t :: ps) = t ++ ['.'] ++ Text.join ['.'] ps :=
    List.intercalate_cons_of_ne_nil hps
  rw [h, List.append_assoc, List.singleton_append]

theorem join_append (hps : ps ≠ []) (hrs : rs ≠ []) :
    Text.join ['.'] (ps ++ rs) = Text.join ['.'] ps ++ '.' :: Text.join ['.'] rs := by
  induction ps with
  | nil => exact absurd rfl hps
  | cons p ps ih =>
    rw [List.cons_append, join_cons (List.append_ne_nil_of_right_ne_nil ps hrs)]
    by_cases hnil : ps = []
    · simp [hnil, Text.join]
    · rw [ih hnil, join_cons hnil]
      simp

theorem mem_join (hc : c ∈ Text.join ['.'] ps) : c = '.' ∨ ∃ p ∈ ps, c ∈ p := by
  induction ps with
  | nil => cases hc
  | cons p ps ih =>
    by_cases hnil : ps = []
    · subst hnil
      exact .inr ⟨p, List.mem_cons_self, by simpa [Text.join] using hc⟩
    · rw [join_cons hnil, List.mem_append, List.mem_cons] at hc
      rcases hc with hp | hdot | hrest
      · exact .inr ⟨p, List.mem_cons_self, hp⟩
      · exact .inl hdot
      · rcases ih hrest with hdot | ⟨r, hr, hcr⟩
        · exact .inl hdot
        · exact .inr ⟨r, List.mem_cons_of_mem p hr, hcr⟩

/-! ## Pieces -/

/-- The pieces of scopes and a text without dots are the segments and that text. -/
theorem pieces_append (hu : u ∈ scopes) (ht : '.' ∉ t) :
    ∃ ss, (∀ s ∈ ss, s ∈ segments) ∧ QualName.pieces (u ++ t) = ss ++ [t] := by
  induction hu using scopes_induction with
  | nil => exact ⟨[], by simp, List.splitOn_eq_singleton ht⟩
  | cons s hs v _ ih =>
    obtain ⟨ss, hss, hpieces⟩ := ih
    refine ⟨s :: ss, ?_, ?_⟩
    · intro x hx
      rcases List.mem_cons.1 hx with rfl | hx
      · exact hs
      · exact hss x hx
    · have hsplit :=
        List.splitOn_append_cons_self_of_not_mem (dot_notMem_of_mem_segments hs) (v ++ t)
      rw [List.append_assoc, List.cons_append, QualName.pieces, QualName.separator, hsplit]
      exact congrArg (s :: ·) hpieces

/-- Segments joined with dots in front of a last piece. -/
theorem join_mem_dottedNames {ss : List Text} (hss : ∀ s ∈ ss, s ∈ segments) (ht : t ∈ names) :
    Text.join ['.'] (ss ++ [t]) ∈ dottedNames := by
  induction ss with
  | nil => exact ⟨[], nil_mem_scopes, t, ht, by simp [Text.join]⟩
  | cons s ss ih =>
    obtain ⟨u, hu, n, hn, hjoin⟩ := ih fun x hx => hss x (List.mem_cons_of_mem s hx)
    refine ⟨s ++ '.' :: u, append_mem_scopes (hss s List.mem_cons_self) hu, n, hn, ?_⟩
    rw [List.cons_append, join_cons (List.append_ne_nil_of_right_ne_nil ss (List.cons_ne_nil t []))]
    simp [← hjoin]

/-- A dotted name is a text whose last piece is a name and whose other pieces are segments. -/
theorem mem_dottedNames_iff :
    t ∈ dottedNames ↔ (∀ p ∈ (QualName.pieces t).dropLast, p ∈ segments) ∧
      ∀ p ∈ (QualName.pieces t).getLast?, p ∈ names := by
  constructor
  · rintro ⟨u, hu, n, hn, rfl⟩
    obtain ⟨ss, hss, hpieces⟩ := pieces_append hu (dot_notMem_of_mem_names hn)
    rw [hpieces, List.dropLast_concat, List.getLast?_concat]
    exact ⟨hss, fun p hp => Option.some.inj hp ▸ hn⟩
  · rintro ⟨hinit, hlast⟩
    have hjoin : Text.join ['.'] (QualName.pieces t) = t := List.intercalate_splitOn '.'
    have hconcat := List.dropLast_append_getLast (QualName.pieces_ne_nil t)
    rw [← hjoin, ← hconcat]
    refine join_mem_dottedNames hinit (hlast _ ?_)
    exact List.getLast?_eq_some_getLast (QualName.pieces_ne_nil t)

instance : DecidablePred (· ∈ dottedNames) := fun _ => decidable_of_iff _ mem_dottedNames_iff.symm

/-! ## Prefixes that may be recognised -/

/-- The text `t` is a prefix of what is ahead that may be recognised: it is a dotted name, and if
its last piece is an underscore, no name character follows. -/
structure Eligible (ahead t : Text) : Prop where
  /-- The text stands ahead. -/
  isPrefix : t <+: ahead
  /-- It has the shape of a dotted name. -/
  mem_dottedNames : t ∈ dottedNames
  /-- An underscore at its end does not run into a name character. -/
  stops : (QualName.pieces t).getLast? = some ['_'] →
    ∀ c ∈ (ahead.drop t.length).head?, Text.isNameChar c = false

theorem eligible_iff {ahead : Text} :
    Eligible ahead t ↔ t <+: ahead ∧ t ∈ dottedNames ∧
      ((QualName.pieces t).getLast? = some ['_'] →
        ∀ c ∈ (ahead.drop t.length).head?, Text.isNameChar c = false) :=
  ⟨fun h => ⟨h.isPrefix, h.mem_dottedNames, h.stops⟩, fun h => ⟨h.1, h.2.1, h.2.2⟩⟩

instance (ahead : Text) : DecidablePred (Eligible ahead) := fun t =>
  -- Only the character that follows is looked at; a search over all characters would do, too.
  haveI : Decidable (∀ c ∈ (ahead.drop t.length).head?, Text.isNameChar c = false) :=
    Option.decidableForallMem _
  decidable_of_iff _ eligible_iff.symm

end DottedNames.Grammar
