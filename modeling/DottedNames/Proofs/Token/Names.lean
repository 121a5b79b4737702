import DottedNames.Log.Session
import DottedNames.Proofs.QualName.Reading
import DottedNames.Proofs.Token.Scan

/-!
# The names of tokens

Recognition looks at what follows, and the name of a token is read from the token by itself. Nothing
goes wrong in between: whatever is recognised in a text is the written form of a name, so looking
for the names in a text always gives an answer (`Token.find_text_spells`).
-/

namespace DottedNames

open Grammar

variable {t r : Text} {token : Token}

/-- What is recognised at any place is a dotted name. -/
theorem mem_dottedNames_of_recognize {pos : Datum}
    (h : recognize (.text t) pos = .ok (some r)) : r ∈ dottedNames := by
  cases hpos : pos.toPosition with
  | error f =>
    rw [recognize, Datum.toWindow, hpos] at h
    cases h
  | ok i =>
    have hrun : recognize (.text t) pos = .ok (recognizeAt? t i) := by
      rw [recognize, Datum.toWindow, hpos]
      rfl
    rw [hrun, Except.ok.injEq, recognizeAt?_eq_some_iff] at h
    exact h.holds.mem_dottedNames

/-- A dotted name of the grammar can be read, and gives the same text again. -/
theorem exists_readName_of_mem_dottedNames (h : t ∈ dottedNames) :
    ∃ q, (Operand.datum (.text t)).readName = .ok q ∧ q.text = t := by
  obtain ⟨q, hq⟩ := QualName.exists_eq_text_of_mem_dottedNames h
  exact ⟨q, Operand.readName_eq_ok_iff_eq_text.2 hq, hq.symm⟩

/-! ## Lists of tokens -/

theorem namesOfTokens_cons (token : Token) (tokens : List Token) :
    namesOfTokens (token :: tokens) = (do
      let q ← token.toQualName.mapError .invalidIdentifier
      let qs ← namesOfTokens tokens
      return q :: qs) := List.mapM_cons

/-- The names of some tokens are those whose written forms the tokens are. -/
theorem namesOfTokens_eq_ok_iff {tokens : List Token} {qs : List QualName} :
    namesOfTokens tokens = .ok qs ↔ qs.map QualName.text = tokens.map Token.text := by
  induction tokens generalizing qs with
  | nil =>
    show Except.ok [] = Except.ok qs ↔ _
    rw [Except.ok.injEq, List.map_nil, List.map_eq_nil_iff, eq_comm]
  | cons token tokens ih =>
    have hhead : ∀ q, token.toQualName = .ok q ↔ q.text = token.text := fun q =>
      QualName.parse_eq_ok_iff_eq_text.trans eq_comm
    rw [namesOfTokens_cons]
    constructor
    · intro h
      cases hq : token.toQualName with
      | error e =>
        rw [hq] at h
        cases h
      | ok q =>
        cases hrest : namesOfTokens tokens with
        | error f =>
          rw [hq, hrest] at h
          cases h
        | ok rest =>
          rw [hq, hrest] at h
          cases h
          rw [List.map_cons, List.map_cons, (hhead q).1 hq, ih.1 hrest]
    · intro h
      cases qs with
      | nil => cases h
      | cons q qs =>
        obtain ⟨hq, hqs⟩ := List.cons.inj h
        rw [(hhead q).2 hq, ih.2 hqs]
        rfl

theorem Session.result_find_text (s : Session) (t : Text) :
    (s.find (.text t)).2.2 = namesOfTokens (Token.scan t) := rfl

theorem Token.exists_namesOfTokens_scan (t : Text) :
    ∃ qs, namesOfTokens (scan t) = .ok qs ∧ qs.map QualName.text = (scan t).map Token.text := by
  have hrange : (scan t).map Token.text ∈ Set.range (List.map QualName.text) := by
    rw [Set.range_list_map]
    intro u hu
    obtain ⟨token, htoken, rfl⟩ := List.mem_map.1 hu
    obtain ⟨q, hq⟩ :=
      QualName.exists_eq_text_of_mem_dottedNames (mem_dottedNames_of_mem_scan htoken)
    exact ⟨q, hq.symm⟩
  obtain ⟨qs, hqs⟩ := hrange
  exact ⟨qs, namesOfTokens_eq_ok_iff.2 hqs, hqs⟩

/-! ## Spans -/

/-- A token is what stands in the text at its span. -/
theorem Token.slice_of_mem_scan (h : token ∈ scan t) :
    0 ≤ token.start ∧ token.stop ≤ t.length ∧
      Span.slice ⟨token.start.toNat, token.stop.toNat⟩ t = token.text := by
  obtain ⟨u, v, rfl, hstart, hstop⟩ := exists_split_of_mem_scan h
  have hstop' : token.stop = u.length + token.text.length := by
    rw [hstop, List.length_append]
    omega
  have hfrom : token.start.toNat = u.length := by omega
  have hlength : token.stop.toNat - u.length = token.text.length := by omega
  refine ⟨by omega, ?_, ?_⟩
  · simp only [List.length_append]
    omega
  · rw [Span.slice, hfrom, hlength, List.append_assoc, List.drop_left, List.take_left]

/-- Looking for the names in a text always gives an answer: one name for each token, with the token
as its written form. The tokens are the parts of the text at their spans, which are not empty, come
from left to right and do not overlap. Everything that is recognised in the text, at a token or
elsewhere, can be read as a name and gives the same text again. -/
theorem Token.find_text_spells (s : Session) (t : Text) :
    ∃ tokens, (Datum.text t).tokens = .ok tokens ∧
      (∃ qs, (s.find (.text t)).2.2 = .ok qs ∧
        qs.map QualName.text = tokens.map Token.text) ∧
      (∀ token ∈ tokens, ∃ q, token.toQualName = .ok q ∧
        (Operand.datum (.text token.text)).readName = .ok q ∧ q.text = token.text) ∧
      (∀ token ∈ tokens, 0 ≤ token.start ∧ token.start < token.stop ∧ token.stop ≤ t.length ∧
        Span.slice ⟨token.start.toNat, token.stop.toNat⟩ t = token.text) ∧
      tokens.Pairwise (fun a b => a.start < b.start ∧ a.stop < b.stop ∧ a.stop ≤ b.start) ∧
      ∀ pos r, recognize (.text t) pos = .ok (some r) →
        ∃ q, (Operand.datum (.text r)).readName = .ok q ∧ q.text = r := by
  refine ⟨Token.scan t, rfl, Token.exists_namesOfTokens_scan t, fun token htoken => ?_,
    fun token htoken => ?_, ?_, fun pos r hr => ?_⟩
  · obtain ⟨q, hq, htext⟩ :=
      exists_readName_of_mem_dottedNames (Token.mem_dottedNames_of_mem_scan htoken)
    exact ⟨q, Operand.readName_eq_ok_iff.1 hq, hq, htext⟩
  · obtain ⟨hstart, hstop, hslice⟩ := Token.slice_of_mem_scan htoken
    exact ⟨hstart, Token.start_lt_stop_of_mem_scan htoken, hstop, hslice⟩
  · refine (Token.pairwise_stop_le_start t).imp_of_mem fun {a b} ha hb hle => ?_
    have hafter := Token.start_lt_stop_of_mem_scan ha
    have hbehind := Token.start_lt_stop_of_mem_scan hb
    exact ⟨by omega, by omega, hle⟩
  · exact exists_readName_of_mem_dottedNames (mem_dottedNames_of_recognize hr)

/-- Behind the parenthesis of `(_.x` the underscore is recognised, and by itself it is a name, too.
-/
theorem Token.find_text_spells_underscore :
    recognize (.text ['(', '_', '.', 'x']) (.int 1) = .ok (some ['_']) ∧
      ∃ q, (Operand.datum (.text ['_'])).readName = .ok q ∧ q.text = ['_'] := by
  have hrun : recognize (.text ['(', '_', '.', 'x']) (.int 1) = .ok (some ['_']) := rfl
  obtain ⟨tokens, -, -, -, -, -, hread⟩ :=
    Token.find_text_spells (.initial none) ['(', '_', '.', 'x']
  exact ⟨hrun, hread _ _ hrun⟩

end DottedNames
