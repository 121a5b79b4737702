import DottedNames.Proofs.QualName.Reading

/-!
# Names with an underscore inside

A name may have underscores among its segments, but the grammar of running text allows one at the
end only. So what is recognised of the written form of a name is the name up to its first
underscore (`longest_upToUnderscore`), and this is the only difference between reading a text as a
name and matching it with the pattern of dotted names (`fullMatches_iff_read`).
-/

namespace DottedNames

open Grammar

namespace QualName

variable {q : QualName} {t u : Text}

/-- The name up to and with its first underscore, or all of it if no segment is an underscore. -/
def upToUnderscore (q : QualName) : QualName where
  segments := q.segments.take (q.texts.idxOf ['_'] + 1)
  segments_ne_nil := by simp [q.segments_ne_nil]

theorem texts_upToUnderscore : q.upToUnderscore.texts = q.texts.take (q.texts.idxOf ['_'] + 1) :=
  List.map_take

/-- Either no underscore stands before the last segment and the name is left as it is, or the first
underscore becomes the last segment and something is left out. -/
theorem upToUnderscore_cases (q : QualName) :
    (['_'] ∉ q.texts.dropLast ∧ q.upToUnderscore = q) ∨
      ∃ ps rest, q.texts = ps ++ ['_'] :: rest ∧ rest ≠ [] ∧ ['_'] ∉ ps ∧
        q.upToUnderscore.texts = ps ++ [['_']] := by
  by_cases h : ['_'] ∈ q.texts
  · obtain ⟨ps, rest, htexts, hps⟩ := List.eq_append_cons_of_mem h
    have hidx : q.texts.idxOf ['_'] = ps.length := by
      rw [htexts, List.idxOf_append_of_notMem hps]
      simp
    have hcut : q.upToUnderscore.texts = ps ++ [['_']] := by
      rw [texts_upToUnderscore, hidx, htexts]
      simp [List.take_append]
    by_cases hrest : rest = []
    · subst hrest
      refine .inl ⟨?_, texts_injective (hcut.trans htexts.symm)⟩
      rw [htexts, List.dropLast_concat]
      exact hps
    · exact .inr ⟨ps, rest, htexts, hrest, hps, hcut⟩
  · have htake : q.upToUnderscore.texts = q.texts := by
      rw [texts_upToUnderscore, List.idxOf_eq_length h]
      exact List.take_of_length_le (Nat.le_succ _)
    exact .inl ⟨fun hmem => h (List.mem_of_mem_dropLast hmem), texts_injective htake⟩

theorem upToUnderscore_eq_self_iff : q.upToUnderscore = q ↔ ['_'] ∉ q.texts.dropLast := by
  rcases q.upToUnderscore_cases with ⟨hno, hself⟩ | ⟨ps, rest, htexts, hrest, -, hcut⟩
  · exact iff_of_true hself hno
  · refine iff_of_false (fun hself => ?_) fun hno => hno ?_
    · rw [hself, htexts] at hcut
      exact hrest (by simpa using hcut)
    · rw [htexts, List.dropLast_append_of_ne_nil (by simp), List.dropLast_cons_of_ne_nil hrest]
      simp

/-! ## Written forms -/

/-- The written form of a name has the shape of the grammar if no underscore stands before the last
segment. -/
theorem text_mem_dottedNames_iff : q.text ∈ dottedNames ↔ ['_'] ∉ q.texts.dropLast := by
  rw [mem_dottedNames_iff, pieces_text]
  constructor
  · rintro ⟨hinit, -⟩ hmem
    exact underscore_notMem_segments (hinit _ hmem)
  · intro hmem
    refine ⟨fun p hp => ?_, fun p hp => mem_names_of_mem_texts (List.mem_of_getLast? hp)⟩
    rcases mem_names_of_mem_texts (List.mem_of_mem_dropLast hp) with hs | rfl
    · exact hs
    · exact absurd hp hmem

theorem text_upToUnderscore_mem_dottedNames (q : QualName) :
    q.upToUnderscore.text ∈ dottedNames := by
  rw [text_mem_dottedNames_iff]
  rcases q.upToUnderscore_cases with ⟨hno, hself⟩ | ⟨ps, rest, -, -, hps, hcut⟩
  · rwa [hself]
  · rwa [hcut, List.dropLast_concat]

/-- What is left out begins with a dot, and what is kept then ends with an underscore. -/
theorem text_eq_upToUnderscore (q : QualName) :
    q.text = q.upToUnderscore.text ∨
      ∃ left, q.text = q.upToUnderscore.text ++ '.' :: left ∧ ['_'] ∈ q.upToUnderscore.texts := by
  rcases q.upToUnderscore_cases with ⟨-, hself⟩ | ⟨ps, rest, htexts, hrest, -, hcut⟩
  · exact .inl (congrArg text hself.symm)
  · refine .inr ⟨Text.join ['.'] rest, ?_, by simp [hcut]⟩
    have hsplit : q.texts = (ps ++ [['_']]) ++ rest := by simp [htexts]
    show Text.join ['.'] q.texts = Text.join ['.'] q.upToUnderscore.texts ++ _
    rw [hcut, hsplit, join_append (by simp) hrest]

/-! ## The longest prefix -/

/-- A prefix that may be recognised does not go over the dot behind an underscore. -/
theorem length_le_of_eligible (hu : Eligible q.text u) :
    u.length ≤ q.upToUnderscore.text.length := by
  have hpre := hu.isPrefix
  rcases q.text_eq_upToUnderscore with htext | ⟨left, htext, hunderscore⟩
  · rw [htext] at hpre
    exact hpre.length_le
  · by_contra hgt
    rw [Nat.not_le] at hgt
    rw [htext] at hpre
    obtain ⟨w, rfl⟩ := List.prefix_of_prefix_length_le (List.prefix_append _ _) hpre hgt.le
    cases w with
    | nil => simp at hgt
    | cons x w =>
      obtain ⟨rfl, -⟩ := List.cons_prefix_cons.1 ((List.prefix_append_right_inj _).1 hpre)
      have hpieces : pieces (q.upToUnderscore.text ++ '.' :: w) =
          q.upToUnderscore.texts ++ pieces w := by
        rw [← pieces_text]
        exact List.splitOn_append_cons_self _ _
      have hinit := (mem_dottedNames_iff.1 hu.mem_dottedNames).1
      rw [hpieces, List.dropLast_append_of_ne_nil (pieces_ne_nil w)] at hinit
      exact underscore_notMem_segments (hinit _ (List.mem_append_left _ hunderscore))

/-- What follows the first underscore, if anything does, begins with a dot. -/
theorem eq_dot_of_mem_head?_drop (q : QualName) :
    ∀ x ∈ (q.text.drop q.upToUnderscore.text.length).head?, x = '.' := by
  rcases q.text_eq_upToUnderscore with htext | ⟨left, htext, -⟩
  · rw [htext, List.drop_length]
    simp
  · rw [htext, List.drop_left]
    intro x hx
    exact (Option.some.inj hx).symm

/-- The longest prefix of a written name that may be recognised is the name up to its first
underscore. -/
theorem longest_upToUnderscore (q : QualName) :
    Text.Longest (Eligible q.text) q.upToUnderscore.text := by
  have hpre : q.upToUnderscore.text <+: q.text := by
    rcases q.text_eq_upToUnderscore with htext | ⟨left, htext, -⟩
    · exact htext ▸ List.prefix_refl _
    · exact ⟨_, htext.symm⟩
  refine ⟨⟨hpre, q.text_upToUnderscore_mem_dottedNames, fun _ x hx => ?_⟩,
    fun _ => length_le_of_eligible⟩
  rw [q.eq_dot_of_mem_head?_drop x hx]
  decide

/-- At its start, the name up to its first underscore is recognised in the written form of a name.
-/
theorem recognize_text (q : QualName) :
    recognize (.text q.text) (.int 0) = .ok (some q.upToUnderscore.text) := by
  have hstart : clampPosition q.text.length 0 = 0 := by simp [clampPosition]
  rw [recognize_text_int _ (by decide) (by decide), Except.ok.injEq, recognizeAt?_eq_some_iff,
    hstart]
  exact q.longest_upToUnderscore

end QualName

/-! ## Reading and matching -/

/-- The pattern of names matches exactly the texts in full that can be read as a segment, and the
pattern of segments those among them that are no underscore. The pattern of dotted names matches
exactly the texts in full that can be read as a name without an underscore before the last segment.
Of every text that can be read as a name, the name up to its first underscore is recognised. -/
theorem Grammar.fullMatches_iff_read (t : Text) :
    ((name.fullMatchSpan? t 0 t.length).isSome = true ↔
      ∃ s, (Operand.datum (.text t)).readSegment = .ok s) ∧
    ((segment.fullMatchSpan? t 0 t.length).isSome = true ↔
      (∃ s, (Operand.datum (.text t)).readSegment = .ok s) ∧ t ≠ ['_']) ∧
    ((dottedName.fullMatchSpan? t 0 t.length).isSome = true ↔
      ∃ q, (Operand.datum (.text t)).readName = .ok q ∧ ['_'] ∉ q.texts.dropLast) ∧
    ∀ q, (Operand.datum (.text t)).readName = .ok q →
      recognize (.text t) (.int 0) = .ok (some q.upToUnderscore.text) := by
  refine ⟨?_, ?_, ?_, fun q hq => ?_⟩
  · rw [isSome_fullMatchSpan?_name_iff, Operand.exists_readSegment_iff]
  · rw [spells_segment.isSome_fullMatchSpan?_iff, Operand.exists_readSegment_iff, mem_segments_iff,
      spells_iff_mem_names]
  · rw [isSome_fullMatchSpan?_dottedName_iff]
    simp only [Operand.readName_eq_ok_iff_eq_text]
    constructor
    · intro ht
      obtain ⟨q, rfl⟩ := QualName.exists_eq_text_of_mem_dottedNames ht
      exact ⟨q, rfl, QualName.text_mem_dottedNames_iff.1 ht⟩
    · rintro ⟨q, rfl, hno⟩
      exact QualName.text_mem_dottedNames_iff.2 hno
  · rw [Operand.readName_eq_ok_iff_eq_text] at hq
    rw [hq]
    exact q.recognize_text

/-- The text `a._.b` is read as three segments, and `a._` is recognised. -/
theorem Grammar.fullMatches_iff_read_inner_underscore :
    ∃ q, (Operand.datum (.text ['a', '.', '_', '.', 'b'])).readName = .ok q ∧
      q.upToUnderscore.text = ['a', '.', '_'] ∧
      recognize (.text ['a', '.', '_', '.', 'b']) (.int 0) = .ok (some ['a', '.', '_']) := by
  obtain ⟨q, hq⟩ : ∃ q, (Operand.datum (.text ['a', '.', '_', '.', 'b'])).readName = .ok q :=
    ⟨_, rfl⟩
  have hcut : q.upToUnderscore.text = ['a', '.', '_'] := by
    cases hq
    rfl
  exact ⟨q, hq, hcut, hcut ▸ (fullMatches_iff_read _).2.2.2 q hq⟩

end DottedNames
