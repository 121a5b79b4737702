import DottedNames.Proofs.Log.Line
import Mathlib.Data.List.Infix

/-!
# Origins in lines

The origin of a record is put into the template of its line as it is, so the characters that are
active in templates are active in it too. A text between two tags stands for itself if it is inert
(`Template.Inert`): it has no brace, no tag and no backslash at its end. Every other text without
an opening brace comes out shorter or takes the meaning of the tag behind it away
(`Template.Outcome`), and so never stands for itself. An origin that opens a placeholder can stand
for itself by chance, when the field that it names holds the text of the placeholder.
-/

namespace DottedNames

/-! ## Tags at the end of a text -/

namespace Tag

variable {t rest name : Text} {tag : Tag}

theorem groundLength_le (t : Text) : groundLength t ≤ t.length := by
  unfold groundLength
  split
  · split <;> simp
  · split <;> simp
  · exact Nat.zero_le _

/-- Which ground is meant is told by three characters. -/
theorem groundLength_congr (a b c : Char) (t u : Text) :
    groundLength (a :: b :: c :: t) = groundLength (a :: b :: c :: u) := by
  unfold groundLength
  split
  · next heq => cases heq; rfl
  · next heq => cases heq; rfl
  · next hfg hbg =>
    split
    · next heq => cases heq; exact absurd rfl (hfg c t)
    · next heq => cases heq; exact absurd rfl (hbg c t)
    · rfl

/-- An opening bracket behind a text does not make it mean a ground. -/
theorem groundLength_append_bracket (t rest : Text) :
    groundLength (t ++ '<' :: rest) = groundLength t := by
  match t with
  | [] => rfl
  | [a] =>
    rw [groundLength_eq_zero, groundLength_eq_zero]
    · rintro _ _ _ _ ⟨⟩
    · rintro _ _ _ _ ⟨⟩ - ⟨⟩
  | [a, b] =>
    rw [groundLength_eq_zero, groundLength_eq_zero]
    · rintro _ _ _ _ ⟨⟩
    · rintro _ _ _ _ ⟨⟩ - -
      decide +kernel
  | a :: b :: c :: t => exact groundLength_congr a b c _ _

/-- What a name at the start of a text would be, if a tag ended behind it. -/
def nameBefore (t : Text) : Text :=
  t.take (groundLength t) ++ (t.drop (groundLength t)).takeWhile isNameChar

theorem nameAt?_eq (t : Text) :
    nameAt? t =
      if (t.drop (nameBefore t).length).head? = some '>' then some (nameBefore t) else none := rfl

theorem nameBefore_isPrefix (t : Text) : nameBefore t <+: t := by
  obtain ⟨u, hu⟩ := List.takeWhile_prefix isNameChar (l := t.drop (groundLength t))
  refine ⟨u, ?_⟩
  rw [nameBefore, List.append_assoc, hu, List.take_append_drop]

theorem nameBefore_append_bracket (t rest : Text) :
    nameBefore (t ++ '<' :: rest) = nameBefore t := by
  have hground := groundLength_le t
  unfold nameBefore
  rw [groundLength_append_bracket, List.take_append_of_le_length hground,
    List.drop_append_of_le_length hground, Text.takeWhile_append_cons (by decide)]

/-- No name of a tag goes beyond an opening bracket. -/
theorem nameAt?_append_bracket (t rest : Text) : nameAt? (t ++ '<' :: rest) = nameAt? t := by
  have hlength := (nameBefore_isPrefix t).length_le
  have hhead : (t.drop (nameBefore t).length ++ '<' :: rest).head? = some '>' ↔
      (t.drop (nameBefore t).length).head? = some '>' := by
    cases t.drop (nameBefore t).length with
    | nil => exact iff_of_false (by simp) (by simp)
    | cons c u => rfl
  rw [nameAt?_eq, nameAt?_eq, nameBefore_append_bracket, List.drop_append_of_le_length hlength]
  exact if_congr hhead rfl rfl

/-- A name stands in front of a closing bracket. -/
theorem exists_of_nameAt? (h : nameAt? t = some name) : ∃ u, t = name ++ '>' :: u := by
  rw [nameAt?_eq] at h
  split at h
  · next hhead =>
    cases h
    obtain ⟨u, hu⟩ := List.head?_eq_some_iff.1 hhead
    exact ⟨u, hu ▸ (List.prefix_iff_eq_append.1 (nameBefore_isPrefix t)).symm⟩
  · cases h

/-- A tag opens or closes a stretch, as the character behind its bracket says. -/
theorem at?_bracket (t : Text) :
    at? ('<' :: t) = if t.head? = some '/' then (nameAt? t.tail).map (Tag.mk true)
      else (nameAt? t).map (Tag.mk false) := by
  by_cases h : t.head? = some '/'
  · obtain ⟨u, rfl⟩ := List.head?_eq_some_iff.1 h
    rfl
  · rw [if_neg h, at?.eq_2]
    rintro u rfl
    exact h rfl

/-- What stands behind an opening bracket does not matter for the tags in front of it. -/
theorem at?_append_bracket (ht : t ≠ []) (rest : Text) : at? (t ++ '<' :: rest) = at? t := by
  obtain ⟨c, t, rfl⟩ := List.exists_cons_of_ne_nil ht
  by_cases hc : c = '<'
  · subst hc
    rw [List.cons_append, at?_bracket, at?_bracket, nameAt?_append_bracket]
    cases t with
    | nil => rfl
    | cons d t =>
      show (if some d = some '/' then (nameAt? (t ++ '<' :: rest)).map _ else _) = _
      rw [nameAt?_append_bracket]
      rfl
  · rw [List.cons_append, at?_cons_of_ne hc, at?_cons_of_ne hc]

/-- A tag that is read is there. -/
theorem exists_of_at? (h : at? t = some tag) : ∃ u, t = tag.text ++ u := by
  cases t with
  | nil => cases h
  | cons c t =>
    by_cases hc : c = '<'
    · subst hc
      rw [at?_bracket] at h
      split at h
      · next hhead =>
        obtain ⟨t, rfl⟩ := List.head?_eq_some_iff.1 hhead
        obtain ⟨name, hname, rfl⟩ := Option.map_eq_some_iff.1 h
        obtain ⟨u, hu⟩ := exists_of_nameAt? hname
        refine ⟨u, ?_⟩
        rw [show t = name ++ '>' :: u from hu]
        simp [text]
      · obtain ⟨name, hname, rfl⟩ := Option.map_eq_some_iff.1 h
        obtain ⟨u, hu⟩ := exists_of_nameAt? hname
        refine ⟨u, ?_⟩
        rw [hu]
        simp [text]
    · rw [at?_cons_of_ne hc] at h
      cases h

end Tag

namespace Template

variable {field? : Text → Option FieldValue} {t u x y rest closing : Text} {c : Char}
  {opened : List Text}

/-! ## Inert texts -/

/-- Nothing in the text is taken for more than a character when a tag follows. -/
structure Inert (t : Text) : Prop where
  /-- There is no brace. -/
  brace_notMem : openBrace ∉ t ∧ closeBrace ∉ t
  /-- There is no tag. -/
  at?_eq_none : ∀ u ∈ t.tails, Tag.at? u = none
  /-- No backslash stands at the end, where it would take the meaning of the tag away. -/
  getLast?_ne : t.getLast? ≠ some '\\'

instance : Decidable (Inert t) :=
  decidable_of_iff ((openBrace ∉ t ∧ closeBrace ∉ t) ∧ (∀ u ∈ t.tails, Tag.at? u = none) ∧
      t.getLast? ≠ some '\\')
    ⟨fun ⟨hbraces, htags, hlast⟩ => ⟨hbraces, htags, hlast⟩,
      fun ⟨hbraces, htags, hlast⟩ => ⟨hbraces, htags, hlast⟩⟩

theorem inert_nil : Inert [] := ⟨by simp, by decide, by simp⟩

theorem inert_cons_iff :
    Inert (c :: t) ↔ (c ≠ openBrace ∧ c ≠ closeBrace) ∧ Tag.at? (c :: t) = none ∧
      (c = '\\' → t ≠ []) ∧ Inert t := by
  have hlast : (c :: t).getLast? ≠ some '\\' ↔ (c = '\\' → t ≠ []) ∧ t.getLast? ≠ some '\\' := by
    cases t with
    | nil => simp
    | cons d t => simp [List.getLast?_cons_cons]
  constructor
  · rintro ⟨⟨hopen, hclose⟩, htags, hback⟩
    rw [List.tails_cons, List.forall_mem_cons] at htags
    rw [List.mem_cons, not_or] at hopen hclose
    rw [hlast] at hback
    exact ⟨⟨Ne.symm hopen.1, Ne.symm hclose.1⟩, htags.1, hback.1,
      ⟨hopen.2, hclose.2⟩, htags.2, hback.2⟩
  · rintro ⟨⟨hopen, hclose⟩, htag, hback, hbraces, htags, hlast'⟩
    refine ⟨⟨?_, ?_⟩, ?_, hlast.2 ⟨hback, hlast'⟩⟩
    · rw [List.mem_cons, not_or]
      exact ⟨Ne.symm hopen, hbraces.1⟩
    · rw [List.mem_cons, not_or]
      exact ⟨Ne.symm hclose, hbraces.2⟩
    · rw [List.tails_cons, List.forall_mem_cons]
      exact ⟨htag, htags⟩

/-! ## Single steps of rendering -/

/-- The number of backslashes at the start of a text. -/
def backslashes (t : Text) : Nat := (t.takeWhile (· == '\\')).length

/-- The backslashes that are left of a run in front of a tag, where one more is in front. -/
def keptBackslashes (more : Nat) : Text := List.replicate ((more + 1) / 2) '\\'

theorem length_keptBackslashes_le (more : Nat) : (keptBackslashes more).length ≤ more := by
  rw [keptBackslashes, List.length_replicate]
  omega

/-- A closing brace is halved with another one, and cannot stand alone. -/
theorem renderFrom_closeBrace :
    renderFrom field? opened (closeBrace :: rest) =
      if rest.head? = some closeBrace then
        (renderFrom field? opened (rest.drop 1)).map (closeBrace :: ·)
      else none := by
  rw [renderFrom, if_neg (by decide), if_pos rfl]

theorem renderFrom_backslash_of_at?_eq_none
    (h : Tag.at? (rest.drop (backslashes rest)) = none) :
    renderFrom field? opened ('\\' :: rest) = (renderFrom field? opened rest).map ('\\' :: ·) := by
  rw [renderFrom, if_neg (by decide), if_neg (by decide), if_pos rfl]
  unfold backslashes at h
  simp only [h]

theorem renderFrom_backslash_of_even {tag : Tag}
    (hrest : rest.drop (backslashes rest) = tag.text ++ u)
    (h : Tag.at? (rest.drop (backslashes rest)) = some tag) (heven : backslashes rest % 2 = 0) :
    renderFrom field? opened ('\\' :: rest) =
      (renderFrom field? opened u).map (keptBackslashes (backslashes rest) ++ tag.text ++ ·) := by
  have hbehind : rest.drop (backslashes rest + tag.length) = u := by
    rw [← List.drop_drop, hrest, Tag.length, List.drop_left]
  rw [renderFrom, if_neg (by decide), if_neg (by decide), if_pos rfl]
  unfold backslashes at h heven hbehind ⊢
  simp only [h, heven, hbehind, if_true]
  rfl

theorem renderFrom_backslash_of_odd {tag : Tag}
    (hrest : rest.drop (backslashes rest) = tag.text ++ u)
    (h : Tag.at? (rest.drop (backslashes rest)) = some tag) (hodd : backslashes rest % 2 ≠ 0) :
    renderFrom field? opened ('\\' :: rest) =
      (Markup.step opened tag).bind fun opened =>
        (renderFrom field? opened u).map (keptBackslashes (backslashes rest) ++ ·) := by
  have hbehind : rest.drop (backslashes rest + tag.length) = u := by
    rw [← List.drop_drop, hrest, Tag.length, List.drop_left]
  rw [renderFrom, if_neg (by decide), if_neg (by decide), if_pos rfl]
  unfold backslashes at h hodd hbehind ⊢
  simp only [h, hodd, hbehind, if_false]
  cases Markup.step opened tag with
  | none => rfl
  | some opened =>
    simp only [Option.bind_eq_bind, Option.bind_some]
    cases renderFrom field? opened u <;> rfl

/-! ## A text in front of a tag -/

theorem at?_append_text (ht : t ≠ []) (tag : Tag) (rest : Text) :
    Tag.at? (t ++ (tag.text ++ rest)) = Tag.at? t :=
  Tag.at?_append_bracket ht _

theorem backslashes_append_text (t : Text) (tag : Tag) (rest : Text) :
    backslashes (t ++ (tag.text ++ rest)) = backslashes t :=
  congrArg List.length (Text.takeWhile_append_cons (by decide) t _)

theorem backslashes_le (t : Text) : backslashes t ≤ t.length :=
  (List.takeWhile_prefix _).length_le

theorem drop_backslashes_append_text (t : Text) (tag : Tag) (rest : Text) :
    (t ++ (tag.text ++ rest)).drop (backslashes (t ++ (tag.text ++ rest))) =
      t.drop (backslashes t) ++ (tag.text ++ rest) := by
  rw [backslashes_append_text, List.drop_append_of_le_length (backslashes_le t)]

/-- If nothing is behind the backslashes of a text, it ends with one. -/
theorem getLast?_of_drop_backslashes (h : t.drop (backslashes t) = []) :
    ('\\' :: t).getLast? = some '\\' := by
  have hall : t.takeWhile (· == '\\') = t := by
    have hprefix := List.prefix_iff_eq_append.1 (List.takeWhile_prefix (· == '\\') (l := t))
    unfold backslashes at h
    rwa [h, List.append_nil] at hprefix
  rw [List.getLast?_cons]
  cases hlast : t.getLast? with
  | none => rfl
  | some c =>
    have hmem : c ∈ t.takeWhile (· == '\\') := hall.symm ▸ List.mem_of_getLast? hlast
    have hc := List.mem_takeWhile_imp hmem
    simpa using hc

/-- An inert text in front of a tag stands for itself. -/
theorem renderFrom_append_of_inert (h : Inert t) (opened : List Text) (tag : Tag) (rest : Text) :
    renderFrom field? opened (t ++ (tag.text ++ rest)) =
      (renderFrom field? opened (tag.text ++ rest)).map (t ++ ·) := by
  induction t with
  | nil => simp
  | cons c t ih =>
    obtain ⟨hbraces, htag, hback, ht⟩ := inert_cons_iff.1 h
    have hchar : renderFrom field? opened (c :: (t ++ (tag.text ++ rest))) =
        (renderFrom field? opened (t ++ (tag.text ++ rest))).map (c :: ·) := by
      by_cases hc : c = '\\'
      · subst hc
        have hbehind : t.drop (backslashes t) ≠ [] := fun hnil =>
          h.getLast?_ne (getLast?_of_drop_backslashes hnil)
        refine renderFrom_backslash_of_at?_eq_none ?_
        rw [drop_backslashes_append_text, at?_append_text hbehind]
        exact ht.at?_eq_none _ ((List.mem_tails _ _).2 (List.drop_suffix _ _))
      · refine renderFrom_cons_of_at?_eq_none hbraces hc ?_
        rw [← List.cons_append, at?_append_text (List.cons_ne_nil c t), htag]
    rw [List.cons_append, hchar, ih ht, Option.map_map]
    rfl

/-- How a text comes out that stands in front of a tag. -/
inductive Outcome (field? : Text → Option FieldValue) (closing : Tag) (rest t x : Text) : Prop
  /-- It stands for itself if it is inert, and for a shorter text if it is not. -/
  | shown {u y : Text} {opened : List Text} (hu : Inert t ∧ u = t ∨ u.length < t.length)
    (hy : renderFrom field? opened (closing.text ++ rest) = some y) (hx : x = u ++ y)
  /-- A backslash at its end takes the meaning of the tag away. -/
  | escaped {u y : Text} {opened : List Text} (hlast : t.getLast? = some '\\')
    (hy : renderFrom field? opened rest = some y) (hx : x = u ++ (closing.text ++ y))

variable {closing : Tag}

theorem Outcome.cons (h : Outcome field? closing rest t x)
    (hbraces : c ≠ openBrace ∧ c ≠ closeBrace)
    (htag : Tag.at? (c :: t) = none) (hback : c = '\\' → t ≠ []) :
    Outcome field? closing rest (c :: t) (c :: x) := by
  cases h with
  | @shown u y opened hu hy hx =>
    refine .shown (u := c :: u) ?_ hy (by rw [hx]; rfl)
    rcases hu with ⟨ht, rfl⟩ | hlt
    · exact .inl ⟨inert_cons_iff.2 ⟨hbraces, htag, hback, ht⟩, rfl⟩
    · exact .inr (Nat.succ_lt_succ hlt)
  | @escaped u y opened hlast hy hx =>
    refine .escaped (u := c :: u) ?_ hy (by rw [hx]; rfl)
    rw [List.getLast?_cons, hlast]
    rfl

theorem Outcome.append_of_length_lt (h : Outcome field? closing rest t x) (v v' : Text)
    (hlt : v'.length < v.length) : Outcome field? closing rest (v ++ t) (v' ++ x) := by
  cases h with
  | @shown u y opened hu hy hx =>
    refine .shown (u := v' ++ u) (.inr ?_) hy (by rw [hx, List.append_assoc])
    have hle : u.length ≤ t.length := by
      rcases hu with ⟨-, rfl⟩ | hlt
      · exact Nat.le_refl _
      · exact Nat.le_of_lt hlt
    rw [List.length_append, List.length_append]
    omega
  | @escaped u y opened hlast hy hx =>
    refine .escaped (u := v' ++ u) ?_ hy (by rw [hx, List.append_assoc])
    rw [List.getLast?_append, hlast]
    rfl

/-- A text of nothing but backslashes. -/
theorem outcome_of_backslashes {t : Text} (hnil : t.drop (backslashes t) = [])
    (hclosing : Tag.at? (closing.text ++ rest) = some closing)
    (h : renderFrom field? opened ('\\' :: (t ++ (closing.text ++ rest))) = some x) :
    Outcome field? closing rest ('\\' :: t) x := by
  have hdrop := drop_backslashes_append_text t closing rest
  rw [hnil, List.nil_append] at hdrop
  have hclosing' := hclosing
  rw [← hdrop] at hclosing'
  by_cases heven : backslashes (t ++ (closing.text ++ rest)) % 2 = 0
  · rw [renderFrom_backslash_of_even hdrop hclosing' heven, Option.map_eq_some_iff] at h
    obtain ⟨y, hy, rfl⟩ := h
    exact .escaped (getLast?_of_drop_backslashes hnil) hy (List.append_assoc _ _ _)
  · rw [renderFrom_backslash_of_odd hdrop hclosing' heven, Option.bind_eq_some_iff] at h
    obtain ⟨opened', hstep, h⟩ := h
    obtain ⟨y, hy, rfl⟩ := Option.map_eq_some_iff.1 h
    have hread : renderFrom field? opened (closing.text ++ rest) = some y := by
      rw [renderFrom_of_at? hclosing, hstep, Option.bind_some, hy]
    refine .shown (.inr ?_) hread rfl
    rw [backslashes_append_text]
    exact Nat.lt_succ_of_le ((length_keptBackslashes_le _).trans (backslashes_le t))

/-- A text with a tag of its own behind the backslashes at its start. -/
theorem outcome_of_backslashes_tag {t w : Text} {tag : Tag}
    (hdrop : t.drop (backslashes t) = tag.text ++ w)
    (htag : Tag.at? (t.drop (backslashes t)) = some tag)
    (ih : ∀ {opened x}, renderFrom field? opened (w ++ (closing.text ++ rest)) = some x →
      Outcome field? closing rest w x)
    (h : renderFrom field? opened ('\\' :: (t ++ (closing.text ++ rest))) = some x) :
    Outcome field? closing rest ('\\' :: t) x := by
  have hne : t.drop (backslashes t) ≠ [] := by
    rw [hdrop]
    exact List.cons_ne_nil _ _
  have hdrop' := drop_backslashes_append_text t closing rest
  have htag' := htag
  rw [← at?_append_text hne closing rest, ← hdrop'] at htag'
  rw [hdrop, List.append_assoc] at hdrop'
  have hsplit : '\\' :: t = ('\\' :: t.take (backslashes t) ++ tag.text) ++ w := by
    rw [List.append_assoc, ← hdrop, List.cons_append, List.take_append_drop]
  -- Of the backslashes about half are left, so that the text gets shorter even if its tag stays.
  have hkept : (keptBackslashes (backslashes (t ++ (closing.text ++ rest)))).length <
      ('\\' :: t.take (backslashes t)).length := by
    rw [backslashes_append_text, List.length_cons, List.length_take,
      Nat.min_eq_left (backslashes_le t)]
    exact Nat.lt_succ_of_le (length_keptBackslashes_le _)
  rw [hsplit]
  by_cases heven : backslashes (t ++ (closing.text ++ rest)) % 2 = 0
  · rw [renderFrom_backslash_of_even hdrop' htag' heven, Option.map_eq_some_iff] at h
    obtain ⟨y, hy, rfl⟩ := h
    refine (ih hy).append_of_length_lt _ _ ?_
    rw [List.length_append, List.length_append]
    omega
  · rw [renderFrom_backslash_of_odd hdrop' htag' heven, Option.bind_eq_some_iff] at h
    obtain ⟨opened', -, h⟩ := h
    obtain ⟨y, hy, rfl⟩ := Option.map_eq_some_iff.1 h
    refine (ih hy).append_of_length_lt _ _ ?_
    rw [List.length_append]
    omega

/-- A text with a backslash at its start. -/
theorem outcome_of_backslash {t : Text}
    (hclosing : Tag.at? (closing.text ++ rest) = some closing)
    (ih : ∀ {w opened x}, w <:+ t →
      renderFrom field? opened (w ++ (closing.text ++ rest)) = some x →
      Outcome field? closing rest w x)
    (h : renderFrom field? opened ('\\' :: (t ++ (closing.text ++ rest))) = some x) :
    Outcome field? closing rest ('\\' :: t) x := by
  by_cases hnil : t.drop (backslashes t) = []
  · exact outcome_of_backslashes hnil hclosing h
  cases htag : Tag.at? (t.drop (backslashes t)) with
  | none =>
    have hread : Tag.at? ((t ++ (closing.text ++ rest)).drop
        (backslashes (t ++ (closing.text ++ rest)))) = none := by
      rw [drop_backslashes_append_text, at?_append_text hnil, htag]
    rw [renderFrom_backslash_of_at?_eq_none hread, Option.map_eq_some_iff] at h
    obtain ⟨y, hy, rfl⟩ := h
    refine (ih (List.suffix_refl t) hy).cons ⟨by decide, by decide⟩
      (Tag.at?_cons_of_ne (by decide)) ?_
    rintro - rfl
    exact hnil rfl
  | some tag =>
    obtain ⟨w, hw⟩ := Tag.exists_of_at? htag
    have hsuffix : w <:+ t.drop (backslashes t) := hw ▸ List.suffix_append _ _
    exact outcome_of_backslashes_tag hw htag (ih (hsuffix.trans (List.drop_suffix _ _))) h

/-- A text with a character at its start that stands for itself or begins a tag. -/
theorem outcome_of_char {t : Text} (hbraces : c ≠ openBrace ∧ c ≠ closeBrace) (hc : c ≠ '\\')
    (htail : ∀ {opened x}, renderFrom field? opened (t ++ (closing.text ++ rest)) = some x →
      Outcome field? closing rest t x)
    (hsuffix : ∀ {w opened x}, w <:+ c :: t → w.length < (c :: t).length →
      renderFrom field? opened (w ++ (closing.text ++ rest)) = some x →
      Outcome field? closing rest w x)
    (h : renderFrom field? opened (c :: (t ++ (closing.text ++ rest))) = some x) :
    Outcome field? closing rest (c :: t) x := by
  have hread := at?_append_text (List.cons_ne_nil c t) closing rest
  rw [List.cons_append] at hread
  cases htag : Tag.at? (c :: t) with
  | none =>
    rw [renderFrom_cons_of_at?_eq_none hbraces hc (hread.trans htag),
      Option.map_eq_some_iff] at h
    obtain ⟨y, hy, rfl⟩ := h
    exact (htail hy).cons hbraces htag fun hback => absurd hback hc
  | some tag =>
    obtain ⟨w, hw⟩ := Tag.exists_of_at? htag
    rw [← List.cons_append, hw, List.append_assoc] at h hread
    rw [hw] at hsuffix htag ⊢
    rw [renderFrom_of_at? (hread.trans htag), Option.bind_eq_some_iff] at h
    obtain ⟨opened', -, h⟩ := h
    have hlt : w.length < (tag.text ++ w).length := by
      rw [List.length_append]
      exact Nat.lt_add_of_pos_left (Nat.succ_pos _)
    exact (hsuffix (List.suffix_append _ _) hlt h).append_of_length_lt tag.text []
      (Nat.succ_pos _)

/-- A text with a closing brace at its start. -/
theorem outcome_of_closeBrace {t : Text}
    (ih : ∀ {w opened x}, w <:+ t →
      renderFrom field? opened (w ++ (closing.text ++ rest)) = some x →
      Outcome field? closing rest w x)
    (h : renderFrom field? opened (closeBrace :: (t ++ (closing.text ++ rest))) = some x) :
    Outcome field? closing rest (closeBrace :: t) x := by
  rw [renderFrom_closeBrace] at h
  split at h
  · next hhead =>
    obtain ⟨y, hy, rfl⟩ := Option.map_eq_some_iff.1 h
    cases t with
    | nil => exact absurd (Option.some.inj hhead) (by decide)
    | cons d t =>
      obtain rfl : d = closeBrace := Option.some.inj hhead
      exact (ih (List.suffix_cons _ t) hy).append_of_length_lt [closeBrace, closeBrace]
        [closeBrace] (by decide)
  · cases h

/-- What comes out of a text without an opening brace in front of a tag. -/
theorem outcome_of_renderFrom {t : Text} (hclosing : Tag.at? (closing.text ++ rest) = some closing)
    (hbrace : openBrace ∉ t)
    (h : renderFrom field? opened (t ++ (closing.text ++ rest)) = some x) :
    Outcome field? closing rest t x := by
  -- A tag of the text is passed in one step, so the induction is on the length of the text.
  induction hn : t.length using Nat.strong_induction_on generalizing t opened x with
  | _ n ih =>
    subst hn
    have hsuffix : ∀ {w : Text}, w <:+ t → w.length < t.length → ∀ {opened x},
        renderFrom field? opened (w ++ (closing.text ++ rest)) = some x →
        Outcome field? closing rest w x :=
      fun hw hlt _ _ hx => ih _ hlt (fun hmem => hbrace (hw.subset hmem)) hx rfl
    clear ih
    cases t with
    | nil => exact .shown (.inl ⟨inert_nil, rfl⟩) h rfl
    | cons c t =>
      have htail : ∀ {w opened x}, w <:+ t →
          renderFrom field? opened (w ++ (closing.text ++ rest)) = some x →
          Outcome field? closing rest w x := fun hw =>
        hsuffix (hw.trans (List.suffix_cons c t)) (Nat.lt_succ_of_le hw.length_le)
      have hopen : c ≠ openBrace := fun hc => hbrace (hc ▸ List.mem_cons_self)
      by_cases hclose : c = closeBrace
      · subst hclose
        exact outcome_of_closeBrace htail h
      by_cases hback : c = '\\'
      · subst hback
        exact outcome_of_backslash hclosing htail h
      · exact outcome_of_char ⟨hopen, hclose⟩ hback (htail (List.suffix_refl t))
          (fun hw hlt => hsuffix hw hlt) h

/-! ## Pieces that render verbatim -/

/-- A piece renders the same at the end of a template. -/
theorem Renders.eq_of_renderFrom (h : Renders field? t u)
    (hx : renderFrom field? opened t = some x) : x = u := by
  have hend := h opened []
  rw [List.append_nil, hx, renderFrom] at hend
  split at hend
  · simpa using hend
  · cases hend

variable {name : String}

/-- A tagged piece without an opening brace renders verbatim exactly if it is inert. -/
theorem renderFrom_tagged_eq_some_iff (hrest : Renders field? rest u)
    (hname : Tag.IsName name.toList) (hknown : Markup.isKnown name.toList = true)
    (hbrace : openBrace ∉ t) :
    renderFrom field? [] (tagged name t ++ rest) = some (t ++ u) ↔ Inert t := by
  have hclosing : Tag.at? ((Tag.mk true name.toList).text ++ rest) = some ⟨true, name.toList⟩ :=
    Tag.at?_text_append hname
  rw [renderFrom_tagged hname hknown]
  constructor
  · intro h
    cases outcome_of_renderFrom hclosing hbrace h with
    | @shown v y opened hv hy hx =>
      rw [renderFrom_of_at? hclosing, Option.bind_eq_some_iff] at hy
      obtain ⟨opened', -, hy⟩ := hy
      obtain rfl := List.append_cancel_right (hrest.eq_of_renderFrom hy ▸ hx)
      rcases hv with ⟨ht, -⟩ | hlt
      · exact ht
      · exact absurd hlt (Nat.lt_irrefl _)
    | @escaped v y opened hlast hy hx =>
      rw [hrest.eq_of_renderFrom hy, ← List.append_assoc] at hx
      rw [List.append_cancel_right hx, Tag.text, ← List.append_assoc, List.getLast?_concat] at hlast
      cases hlast
  · intro h
    have hend : renderFrom field? [] rest = some u := hrest.render
    rw [renderFrom_append_of_inert h, renderFrom_closing hname, hend]
    rfl

/-! ## Lines -/

variable {r : LogRecord} {m : Moment} {mode : LogMode}

/-- The line of a record shows its origin verbatim exactly if the origin is inert, where the origin
does not open a placeholder. -/
theorem render_line_eq_some_iff (hbrace : openBrace ∉ LogRecord.origin r.bindings) :
    render (r.field? m) (line mode m.time r.level.name r.bindings) =
        some (m.time.text ++ ' ' :: LogRecord.origin r.bindings ++ r.shownEnd mode) ↔
      Inert (LogRecord.origin r.bindings) := by
  have hshown : m.time.text ++ ' ' :: LogRecord.origin r.bindings ++ r.shownEnd mode =
      (m.time.text ++ [' ']) ++ (LogRecord.origin r.bindings ++ r.shownEnd mode) := by
    simp only [List.append_assoc, List.cons_append, List.nil_append]
  have hinjective : Function.Injective fun t : Text => (m.time.text ++ [' ']) ++ t :=
    fun _ _ => List.append_cancel_left
  rw [hshown, line_eq_append, render, renders_lineStart m,
    ← Option.map_some (f := fun t : Text => (m.time.text ++ [' ']) ++ t),
    (Option.map_injective hinjective).eq_iff]
  exact renderFrom_tagged_eq_some_iff (renders_lineEnd m mode r) isName_cyan (by decide) hbrace

end Template

namespace LogRecord

variable {r : LogRecord} {m : Moment} {mode : LogMode} {module action : Text}

/-- The origin of a record that has texts for its module and its action. -/
theorem origin_of_texts {bs : Bindings} (hmodule : Datum.field? bs moduleKey = some (.text module))
    (haction : Datum.field? bs actionKey = some (.text action)) :
    origin bs = module ++ if action = [] then [] else ':' :: action := by
  unfold origin
  rw [hmodule, haction]
  cases action with
  | nil => exact (List.append_nil module).symm
  | cons c action => rfl

/-- The line of a record that has texts for its module and its action is its time, its origin as it
is, in the mode for debugging its level, and its message, if the origin is inert. If the origin
opens no placeholder, then the line is only so if the origin is inert. -/
theorem line_shows_origin (hmodule : Datum.field? r.bindings moduleKey = some (.text module))
    (haction : Datum.field? r.bindings actionKey = some (.text action)) :
    let origin := module ++ if action = [] then [] else ':' :: action
    let rendered := Template.render (r.field? m)
      (Template.line mode m.time r.level.name r.bindings)
    let verbatim := m.time.text ++ ' ' :: origin ++
      ' ' :: (if mode = .debug then '[' :: r.level.name ++ [']', ' '] else []) ++
      r.message ++ ['\n']
    (Template.Inert origin → rendered = some verbatim) ∧
      (openBrace ∉ origin → rendered = some verbatim → Template.Inert origin) := by
  intro origin rendered verbatim
  have horigin : LogRecord.origin r.bindings = origin := origin_of_texts hmodule haction
  have hverbatim : verbatim =
      m.time.text ++ ' ' :: LogRecord.origin r.bindings ++ r.shownEnd mode := by
    simp only [verbatim, horigin, shownEnd, List.append_assoc, List.cons_append]
  have hiff (hbrace : openBrace ∉ origin) : rendered = some verbatim ↔ Template.Inert origin := by
    rw [hverbatim, ← horigin]
    exact Template.render_line_eq_some_iff (horigin ▸ hbrace)
  constructor
  · intro hinert
    exact (hiff hinert.brace_notMem.1).2 hinert
  · intro hbrace
    exact (hiff hbrace).1

/-- Angle brackets that are no tag and backslashes inside an origin are shown as they are. -/
theorem line_shows_origin_comparison :
    let r : LogRecord := ⟨.warning, "<found>".toList,
      [(moduleKey, .text "a < b".toList), (actionKey, .text "c\\d>".toList)]⟩
    let m : Moment := { date := ⟨2000, 1, 2⟩, time := ⟨3, 4, 5, 678901⟩ }
    Template.render (r.field? m) (Template.line .debug m.time r.level.name r.bindings) =
      some "03:04:05.678 a < b:c\\d> [WARNING] <found>\n".toList :=
  ((line_shows_origin rfl rfl).1 (by decide +kernel)).trans (congrArg some (by decide +kernel))

/-- An origin with a tag is not shown as it is. -/
theorem exists_line_not_showing_origin :
    ¬∀ (r : LogRecord) (m : Moment) (mode : LogMode) (module action : Text),
      Datum.field? r.bindings moduleKey = some (.text module) →
      Datum.field? r.bindings actionKey = some (.text action) →
      Template.render (r.field? m) (Template.line mode m.time r.level.name r.bindings) =
        some (m.time.text ++ ' ' :: (module ++ if action = [] then [] else ':' :: action) ++
          ' ' :: (if mode = .debug then '[' :: r.level.name ++ [']', ' '] else []) ++
          r.message ++ ['\n']) := by
  intro h
  let r : LogRecord := ⟨.warning, "x".toList,
    [(moduleKey, .text "<b>a</b>".toList), (actionKey, .text "scan".toList)]⟩
  let m : Moment := { date := ⟨2000, 1, 2⟩, time := ⟨3, 4, 5, 678901⟩ }
  have hline := h r m .warning "<b>a</b>".toList "scan".toList rfl rfl
  have hinert : Template.Inert (origin r.bindings) :=
    (Template.render_line_eq_some_iff (by decide +kernel)).1
      (hline.trans (congrArg some (by decide +kernel)))
  exact absurd hinert (by decide +kernel)

end LogRecord

end DottedNames
