import DottedNames.Operand
import DottedNames.Proofs.Grammar.Recognition

/-!
# What spells a qualified name

A text spells a qualified name exactly when each of its pieces is a name, and the segments then have
the pieces as their texts. Otherwise the report is about the first piece that is no name: the piece,
its position and the whole text. The pieces that are names are also those that the pattern of names
matches in full.
-/

namespace DottedNames

open Grammar

/-! ## Full matches -/

/-- A pattern matches a text in full when one of its ends leaves nothing of the text. -/
theorem Pattern.isSome_fullMatchSpan?_iff {p : Pattern} {t : Text} :
    (p.fullMatchSpan? t 0 t.length).isSome = true ↔
      ∃ d ∈ p.ends (.ofText t 0), d.ahead = [] := by
  have hstart : clampPosition t.length 0 = 0 := by simp [clampPosition]
  rw [Pattern.fullMatchSpan?, Cursor.ofWindow?_length, hstart]
  simp [Pattern.fullMatchEnd?]

/-- A full match reads the whole text, so only what the pattern does at the end of the text counts
for it. -/
theorem Pattern.isSome_fullMatchSpan?_iff_of_reads {p : Pattern} {t : Text} {P : Text → Prop}
    (hreads : ∀ d ∈ p.ends (.ofText t 0), ∃ u, P u ∧ (Cursor.ofText t 0).Reads u d)
    (hends : ∀ d, P t → (Cursor.ofText t 0).Reads t d → d.ahead = [] → d ∈ p.ends (.ofText t 0)) :
    (p.fullMatchSpan? t 0 t.length).isSome = true ↔ P t := by
  rw [Pattern.isSome_fullMatchSpan?_iff]
  constructor
  · rintro ⟨d, hd, hahead⟩
    obtain ⟨u, hu, hread⟩ := hreads d hd
    have ht : t = u := by
      have h := hread.ahead_eq
      rwa [hahead, List.append_nil] at h
    exact ht ▸ hu
  · intro ht
    obtain ⟨d, hread⟩ := Cursor.exists_reads (c := .ofText t 0) (List.prefix_refl t)
    have hahead : d.ahead = [] := by simpa [Cursor.ofText] using hread.drop_ahead.symm
    exact ⟨d, hends d ht hread hahead, hahead⟩

/-- A pattern that spells a language matches exactly the texts of the language in full. -/
theorem Pattern.Spells.isSome_fullMatchSpan?_iff {p : Pattern} {L : Language Char} {t : Text}
    (h : p.Spells L) : (p.fullMatchSpan? t 0 t.length).isSome = true ↔ t ∈ L :=
  Pattern.isSome_fullMatchSpan?_iff_of_reads (fun d hd => (h _ d).1 hd)
    fun d ht hread _ => (h _ d).2 ⟨t, ht, hread⟩

/-- At the end of a text there is no name character for an underscore to run into, so the pattern
matches exactly the names in full. -/
theorem isSome_fullMatchSpan?_name_iff {t : Text} :
    (name.fullMatchSpan? t 0 t.length).isSome = true ↔ t ∈ names := by
  refine Pattern.isSome_fullMatchSpan?_iff_of_reads (fun d => exists_reads_of_mem_ends_name)
    fun d ht hread hahead => mem_ends_name_iff.2 ?_
  rcases ht with hs | rfl
  · exact .inl ⟨t, hs, hread⟩
  · exact .inr ⟨hread, by simp [hahead]⟩

/-- The same for the underscore that a dotted name may end with. -/
theorem isSome_fullMatchSpan?_dottedName_iff {t : Text} :
    (dottedName.fullMatchSpan? t 0 t.length).isSome = true ↔ t ∈ dottedNames := by
  refine Pattern.isSome_fullMatchSpan?_iff_of_reads (fun d hd => ?_) fun d ht hread hahead => ?_
  · obtain ⟨u, hu, hread⟩ := mem_ends_dottedName_iff.1 hd
    exact ⟨u, hu.mem_dottedNames, hread⟩
  · refine mem_ends_dottedName_iff.2 ⟨t, ⟨hread.isPrefix, ht, fun _ => ?_⟩, hread⟩
    simp [hread.drop_ahead, hahead]

/-! ## Segments -/

namespace Segment

variable {t : Text}

theorem mem_names_of_ofText? {s : Segment} (h : ofText? t = some s) : t ∈ names := by
  rw [← text_of_ofText? h]
  exact spells_iff_mem_names.1 s.spells_text

theorem notMem_names_of_ofText? (h : ofText? t = none) : t ∉ names := by
  rw [← spells_iff_mem_names, ofText?_eq_none_iff.1 h]
  exact Bool.false_ne_true

end Segment

namespace QualName

theorem mem_names_of_mem_texts {q : QualName} {p : Text} (hp : p ∈ q.texts) : p ∈ names := by
  obtain ⟨s, -, rfl⟩ := List.mem_map.1 hp
  exact spells_iff_mem_names.1 s.spells_text

/-! ## The first piece that is no name -/

/-- The text `p` stands at position `i` of a list and is the first one there that is no name. -/
structure FirstInvalid (ps : List Text) (i : Nat) (p : Text) : Prop where
  /-- The text stands at the position. -/
  getElem?_eq : ps[i]? = some p
  /-- It is no name. -/
  notMem_names : p ∉ names
  /-- All texts before it are names. -/
  mem_names : ∀ q ∈ ps.take i, q ∈ names

variable {ps : List Text} {p q source : Text} {i index : Nat}

theorem firstInvalid_cons_of_notMem (hp : p ∉ names) :
    FirstInvalid (p :: ps) i q ↔ i = 0 ∧ q = p := by
  constructor
  · intro h
    cases i with
    | zero => exact ⟨rfl, (Option.some.inj h.getElem?_eq).symm⟩
    | succ i => exact absurd (h.mem_names p (by simp)) hp
  · rintro ⟨rfl, rfl⟩
    exact ⟨rfl, hp, by simp⟩

theorem firstInvalid_cons_of_mem (hp : p ∈ names) :
    FirstInvalid (p :: ps) i q ↔ ∃ j, i = j + 1 ∧ FirstInvalid ps j q := by
  constructor
  · intro h
    cases i with
    | zero => exact absurd hp (Option.some.inj h.getElem?_eq ▸ h.notMem_names)
    | succ i =>
      refine ⟨i, rfl, ⟨h.getElem?_eq, h.notMem_names, fun x hx => h.mem_names x ?_⟩⟩
      exact List.mem_cons_of_mem p hx
  · rintro ⟨j, rfl, h⟩
    refine ⟨h.getElem?_eq, h.notMem_names, fun x hx => ?_⟩
    rcases List.mem_cons.1 hx with rfl | hx
    · exact hp
    · exact h.mem_names x hx

/-- Reading pieces fails at the first one that is no name. -/
theorem readPieces_eq_error_iff {e : InvalidIdentifier} :
    readPieces source index ps = .error e ↔
      ∃ i p, FirstInvalid ps i p ∧ e = ⟨p, some ⟨source, index + i⟩⟩ := by
  induction ps generalizing index with
  | nil =>
    constructor
    · intro h
      cases h
    · rintro ⟨i, p, h, -⟩
      exact absurd h.getElem?_eq (by simp)
  | cons p ps ih =>
    unfold readPieces
    split
    · next hnone =>
      have hp : p ∉ names := Segment.notMem_names_of_ofText? hnone
      simp only [firstInvalid_cons_of_notMem hp, Except.error.injEq]
      constructor
      · rintro rfl
        exact ⟨0, p, ⟨rfl, rfl⟩, rfl⟩
      · rintro ⟨i, q, ⟨rfl, rfl⟩, rfl⟩
        rfl
    · next s hs =>
      have hp : p ∈ names := Segment.mem_names_of_ofText? hs
      have hrest : (∃ i q, FirstInvalid (p :: ps) i q ∧ e = ⟨q, some ⟨source, index + i⟩⟩) ↔
          readPieces source (index + 1) ps = .error e := by
        simp only [firstInvalid_cons_of_mem hp, ih]
        constructor
        · rintro ⟨_, q, ⟨j, rfl, h⟩, rfl⟩
          exact ⟨j, q, h, by rw [Nat.add_assoc, Nat.add_comm 1]⟩
        · rintro ⟨j, q, h, rfl⟩
          exact ⟨j + 1, q, ⟨j, rfl, h⟩, by rw [Nat.add_assoc, Nat.add_comm 1]⟩
      rw [hrest]
      cases readPieces source (index + 1) ps <;> simp

/-- A text that spells no name is reported with its first invalid piece. -/
theorem parse_eq_error_iff {t : Text} {e : InvalidIdentifier} :
    parse t = .error e ↔ ∃ i p, FirstInvalid (pieces t) i p ∧ e = ⟨p, some ⟨t, i⟩⟩ := by
  have hread : parse t = .error e ↔ readPieces t 0 (pieces t) = .error e := by
    unfold parse
    split <;> simp_all
  rw [hread, readPieces_eq_error_iff]
  simp only [Nat.zero_add]

/-- A text spells a name when all of its pieces are names. -/
theorem exists_parse_eq_ok_iff {t : Text} :
    (∃ q, parse t = .ok q) ↔ ∀ p ∈ pieces t, p ∈ names := by
  constructor
  · rintro ⟨q, hq⟩ p hp
    rw [← parse_eq_ok_iff.1 hq] at hp
    exact mem_names_of_mem_texts hp
  · intro h
    cases hparse : parse t with
    | ok q => exact ⟨q, rfl⟩
    | error e =>
      obtain ⟨i, p, hfirst, -⟩ := parse_eq_error_iff.1 hparse
      exact absurd (h p (List.mem_of_getElem? hfirst.getElem?_eq)) hfirst.notMem_names

/-- A text spells exactly the name whose written form it is. -/
theorem parse_eq_ok_iff_eq_text {t : Text} {q : QualName} : parse t = .ok q ↔ t = q.text := by
  rw [parse_eq_ok_iff]
  constructor
  · intro h
    show t = Text.join ['.'] q.texts
    rw [h]
    exact (List.intercalate_splitOn '.').symm
  · rintro rfl
    exact q.pieces_text.symm

/-- Names are told apart by their written forms, because no segment has a dot. -/
theorem text_injective {q r : QualName} (h : q.text = r.text) : q = r := by
  have hq : parse q.text = .ok q := parse_eq_ok_iff_eq_text.2 rfl
  have hr : parse q.text = .ok r := parse_eq_ok_iff_eq_text.2 h
  exact Except.ok.inj (hq.symm.trans hr)

theorem texts_injective {q r : QualName} (h : q.texts = r.texts) : q = r :=
  text_injective (congrArg (Text.join [separator]) h)

theorem getLast?_texts (q : QualName) : q.texts.getLast? = some q.leaf.text := by
  rw [texts, List.getLast?_map, List.getLast?_eq_some_getLast q.segments_ne_nil]
  rfl

/-- What the grammar recognises in running text is the written form of a name also by itself. -/
theorem exists_eq_text_of_mem_dottedNames {t : Text} (h : t ∈ dottedNames) :
    ∃ q : QualName, t = q.text := by
  have hnames : ∀ p ∈ pieces t, p ∈ names := by
    obtain ⟨hinit, hlast⟩ := mem_dottedNames_iff.1 h
    intro p hp
    rw [← List.dropLast_append_getLast (pieces_ne_nil t), List.mem_append, List.mem_singleton] at hp
    rcases hp with hp | rfl
    · exact .inl (hinit p hp)
    · exact hlast _ (List.getLast?_eq_some_getLast (pieces_ne_nil t))
  obtain ⟨q, hq⟩ := exists_parse_eq_ok_iff.2 hnames
  exact ⟨q, parse_eq_ok_iff_eq_text.1 hq⟩

end QualName

namespace Operand

variable {t : Text}

/-- A text is read as a segment exactly when it is a name of the grammar. -/
theorem exists_readSegment_iff : (∃ s, (datum (.text t)).readSegment = .ok s) ↔ t ∈ names := by
  show (∃ s, (Segment.parse t).mapError _ = .ok s) ↔ _
  unfold Segment.parse
  cases h : Segment.ofText? t with
  | some s => exact iff_of_true ⟨s, rfl⟩ (Segment.mem_names_of_ofText? h)
  | none => exact iff_of_false (fun ⟨_, hs⟩ => nomatch hs) (Segment.notMem_names_of_ofText? h)

theorem readName_eq_ok_iff {q : QualName} :
    (datum (.text t)).readName = .ok q ↔ QualName.parse t = .ok q := by
  show (QualName.parse t).mapError _ = _ ↔ _
  cases QualName.parse t <;> simp [Except.mapError]

/-- A text is read exactly as the name whose written form it is. -/
theorem readName_eq_ok_iff_eq_text {q : QualName} :
    (datum (.text t)).readName = .ok q ↔ t = q.text :=
  readName_eq_ok_iff.trans QualName.parse_eq_ok_iff_eq_text

theorem readName_eq_error_iff {f : Fault} :
    (datum (.text t)).readName = .error f ↔
      ∃ e, QualName.parse t = .error e ∧ f = .invalidIdentifier e := by
  show (QualName.parse t).mapError _ = _ ↔ _
  cases QualName.parse t <;> simp [Except.mapError, eq_comm]

theorem readName?_text : (datum (.text t)).readName? = (datum (.text t)).readName.toOption := by
  show QualName.parse? t = ((QualName.parse t).mapError _).toOption
  unfold QualName.parse?
  cases QualName.parse t <;> rfl

/-- Reading a text as a qualified name succeeds exactly when all of its pieces are names, and gives
the segments with these texts; otherwise the first piece that is no name is reported with its
position and the whole text. Reading without a report fails in the same cases and otherwise gives
the same name. What counts as a name is what the pattern of names matches in full. -/
theorem readName_text (t : Text) :
    ((∃ q, (datum (.text t)).readName = .ok q) ↔ ∀ p ∈ t.splitOn '.', p ∈ names) ∧
    (∀ q, (datum (.text t)).readName = .ok q ↔ q.texts = t.splitOn '.') ∧
    (∀ f, (datum (.text t)).readName = .error f ↔
      ∃ i p, QualName.FirstInvalid (t.splitOn '.') i p ∧
        f = .invalidIdentifier ⟨p, some ⟨t, i⟩⟩) ∧
    (datum (.text t)).readName? = (datum (.text t)).readName.toOption ∧
    (∀ p, p ∈ names ↔ (Grammar.name.fullMatchSpan? p 0 p.length).isSome = true) := by
  refine ⟨?_, fun q => readName_eq_ok_iff.trans QualName.parse_eq_ok_iff, fun f => ?_,
    readName?_text, fun p => isSome_fullMatchSpan?_name_iff.symm⟩
  · simp only [readName_eq_ok_iff]
    exact QualName.exists_parse_eq_ok_iff
  · rw [readName_eq_error_iff]
    constructor
    · rintro ⟨e, he, rfl⟩
      obtain ⟨i, p, hfirst, rfl⟩ := QualName.parse_eq_error_iff.1 he
      exact ⟨i, p, hfirst, rfl⟩
    · rintro ⟨i, p, hfirst, rfl⟩
      exact ⟨_, QualName.parse_eq_error_iff.2 ⟨i, p, hfirst, rfl⟩, rfl⟩

end Operand

end DottedNames
