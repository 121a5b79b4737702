import DottedNames.Proofs.QualName.Reading
import DottedNames.Proofs.Text.QuotedReading

/-!
# What a message on an invalid identifier tells

A message on an invalid identifier is one line of printable characters, and it tells the text and
the place apart from all others (`wording_eq_iff`): the quoted text is read back in front, then come
the digits of the position, which end at a blank, and then the quoted source. What the two texts are
made of does not matter, be it the very words of a message. So two texts that are refused with the
same message are the same text (`wording_identifies`).
-/

namespace DottedNames.InvalidIdentifier

variable {text text' u u' : Text} {source source' : Option Text} {position position' : Option Int}
  {e e' : InvalidIdentifier}

/-! ## The parts of a message -/

/-- The words behind the quoted text. -/
def ending (source : Option Text) (position : Option Int) : Text :=
  match source with
  | none => ".".toList
  | some source =>
    " at segment ".toList ++
      (positionText position ++ (" of ".toList ++ (source.quoted ++ ".".toList)))

theorem wording_eq_append (text : Text) (source : Option Text) (position : Option Int) :
    wording text source position =
      "Invalid identifier ".toList ++ (text.quoted ++ ending source position) := by
  unfold wording ending
  cases source with
  | none => rw [List.append_assoc]
  | some source => simp only [List.append_assoc]

/-- A position is read as an integer, unless it is the word for none. -/
theorem readInt?_positionText_append (position : Option Int) (hu : u.head? = some ' ') :
    Text.readInt? (positionText position ++ u) = position.map fun i => (i, u) := by
  have hends : Text.EndsNumber u := by
    intro c hc
    rw [hu] at hc
    cases hc
    rfl
  cases position with
  | some i => exact Text.readInt?_ofInt_append i hends
  | none =>
    have hword : Text.readNat? ("None".toList ++ u) = none :=
      Text.readNat?_cons_of_not_isDigit rfl
    show (Text.readNat? ("None".toList ++ u)).map (fun r => ((r.1 : Int), r.2)) = none
    rw [hword]
    rfl

/-- A position ends in front of the blank behind it. -/
theorem positionText_append_inj (hu : u.head? = some ' ') (hu' : u'.head? = some ' ') :
    positionText position ++ u = positionText position' ++ u' ↔ position = position' ∧ u = u' := by
  constructor
  · intro h
    have hread := congrArg Text.readInt? h
    rw [readInt?_positionText_append position hu, readInt?_positionText_append position' hu']
      at hread
    cases position with
    | none =>
      cases position' with
      | none => exact ⟨rfl, List.append_cancel_left h⟩
      | some i' => cases hread
    | some i =>
      cases position' with
      | none => cases hread
      | some i' => simpa using hread
  · rintro ⟨rfl, rfl⟩
    rfl

theorem head?_ending_none : (ending none position).head? = some '.' := rfl

theorem head?_ending_some (s : Text) : (ending (some s) position).head? = some ' ' := rfl

/-- The words behind the quoted text tell the source and the position in it. -/
theorem ending_eq_iff :
    ending source position = ending source' position' ↔
      source = source' ∧ (source ≠ none → position = position') := by
  cases source with
  | none =>
    cases source' with
    | none => exact iff_of_true rfl ⟨rfl, fun h => absurd rfl h⟩
    | some s' =>
      refine iff_of_false (fun h => ?_) nofun
      have hhead := congrArg List.head? h
      rw [head?_ending_none, head?_ending_some] at hhead
      exact absurd hhead (by decide)
  | some s =>
    cases source' with
    | none =>
      refine iff_of_false (fun h => ?_) nofun
      have hhead := congrArg List.head? h
      rw [head?_ending_none, head?_ending_some] at hhead
      exact absurd hhead (by decide)
    | some s' =>
      constructor
      · intro h
        obtain ⟨rfl, hsource⟩ := (positionText_append_inj rfl rfl).1 (List.append_cancel_left h)
        obtain ⟨rfl, -⟩ := Text.quoted_append_inj.1 (List.append_cancel_left hsource)
        exact ⟨rfl, fun _ => rfl⟩
      · rintro ⟨hsource, hposition⟩
        rw [Option.some.inj hsource, hposition nofun]

/-! ## Messages are told apart -/

/-- The words on a text tell the text, its source and the position in the source. -/
theorem wording_eq_iff :
    wording text source position = wording text' source' position' ↔
      text = text' ∧ source = source' ∧ (source ≠ none → position = position') := by
  rw [wording_eq_append, wording_eq_append, List.append_cancel_left_eq, Text.quoted_append_inj,
    ending_eq_iff]

/-- The message tells the text and its place. -/
theorem message_injective (h : e.message = e'.message) : e = e' := by
  obtain ⟨htext, hsource, hposition⟩ := wording_eq_iff.1 h
  obtain ⟨text, place⟩ := e
  obtain ⟨text', place'⟩ := e'
  cases place with
  | none =>
    cases place' with
    | none => exact congrArg (InvalidIdentifier.mk · none) htext
    | some p' => cases hsource
  | some p =>
    cases place' with
    | none => cases hsource
    | some p' =>
      have hindex : p.index = p'.index := Int.ofNat.inj (Option.some.inj (hposition nofun))
      have hplace : p = p' := by
        cases p
        cases p'
        exact congr (congrArg Place.mk (Option.some.inj hsource)) hindex
      subst hplace
      exact congrArg (InvalidIdentifier.mk · (some p)) htext

/-- A refused text is the source of its message. -/
theorem eq_of_message_eq {t t' : Text} (h : QualName.parse t = .error e)
    (h' : QualName.parse t' = .error e') (hmessage : e.message = e'.message) : t = t' := by
  obtain rfl := message_injective hmessage
  obtain ⟨i, p, -, rfl⟩ := QualName.parse_eq_error_iff.1 h
  obtain ⟨i', p', -, heq⟩ := QualName.parse_eq_error_iff.1 h'
  cases heq
  rfl

/-- Whatever the text, its source and the position are, the words on them are printable and without
a line break, and they are the same only if the text is the same and the source is, and the position
too where there is a source. So texts that are refused with the same message are the same. -/
theorem wording_identifies (text text' : Text) (source source' : Option Text)
    (position position' : Option Int) :
    (∀ c ∈ wording text source position, Text.isPrintable c = true ∧ c ∉ Text.lineBreaks) ∧
    (wording text source position = wording text' source' position' ↔
      text = text' ∧ source = source' ∧ (source ≠ none → position = position')) ∧
    (∀ t t' f f', (Operand.datum (.text t)).readName = .error f →
      (Operand.datum (.text t')).readName = .error f' → f.message = f'.message → t = t') := by
  have hprintable := printable_wording text source position
  refine ⟨fun c hc => ⟨hprintable c hc, fun hbreak => hprintable.lineBreak_notMem hbreak hc⟩,
    wording_eq_iff, fun t t' f f' hf hf' hmessage => ?_⟩
  obtain ⟨e, he, rfl⟩ := Operand.readName_eq_error_iff.1 hf
  obtain ⟨e', he', rfl⟩ := Operand.readName_eq_error_iff.1 hf'
  exact eq_of_message_eq he he' hmessage

/-- The first text has the words of a message in it, and yet the messages on the two texts are not
the same. -/
theorem wording_identifies_words_of_message :
    let t := "1' at segment 0 of '1".toList
    let f : Fault := .invalidIdentifier ⟨t, some ⟨t, 0⟩⟩
    let f' : Fault := .invalidIdentifier ⟨['1'], some ⟨['1'], 0⟩⟩
    (Operand.datum (.text t)).readName = .error f ∧
      (Operand.datum (.text ['1'])).readName = .error f' ∧ f.message ≠ f'.message := by
  intro t f f'
  have hf : (Operand.datum (.text t)).readName = .error f := by rfl
  have hf' : (Operand.datum (.text ['1'])).readName = .error f' := by rfl
  refine ⟨hf, hf', fun hmessage => ?_⟩
  have heq := (wording_identifies t ['1'] none none none none).2.2 t ['1'] f f' hf hf' hmessage
  exact absurd heq (by decide)

end DottedNames.InvalidIdentifier
