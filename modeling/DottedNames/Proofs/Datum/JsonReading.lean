import DottedNames.Datum.Json
import DottedNames.Proofs.Text.Numeral
import Mathlib.Tactic.SplitIfs

/-!
# Reading JSON

A reader of JSON, apart from numbers with a point or an exponent, and the round trip: what is
written of a datum without such numbers is read back as the datum (`read?_write_append`). So the
written form tells everything about the datum, whatever characters its texts have.

The reader skips blanks between the parts of a datum, so it does not depend on how the writer breaks
and indents the lines. Its fuel bounds the depth of nesting and the number of items; the length of
the text is always enough.
-/

namespace DottedNames.Json

/-! ## Blanks and punctuation -/

/-- A blank that may stand between the parts of a datum. -/
def isBlank (c : Char) : Bool := c == ' ' || c == '\n' || c == '\r' || c == '\t'

/-- The text behind the blanks at its start. -/
def skip (t : Text) : Text := t.dropWhile isBlank

/-- What follows a character that comes next, behind blanks. -/
def expect? (c : Char) (t : Text) : Option Text :=
  match skip t with
  | [] => none
  | d :: rest => if d = c then some rest else none

variable {t rest : Text} {c closing : Char} {depth : Nat}

theorem isDigit_eq_false_of_isBlank (h : isBlank c = true) : c.isDigit = false := by
  simp only [isBlank, Bool.or_eq_true, beq_iff_eq] at h
  rcases h with ((rfl | rfl) | rfl) | rfl <;> rfl

theorem skip_cons (h : isBlank c = false) : skip (c :: t) = c :: t := by simp [skip, h]

@[simp] theorem skip_newline_append : skip (newline depth ++ t) = skip t := by
  have hblank : ∀ x ∈ newline depth, isBlank x = true := by
    intro x hx
    rcases List.mem_cons.1 hx with rfl | hx
    · rfl
    · rw [List.eq_of_mem_replicate hx]
      rfl
  exact List.dropWhile_append_of_pos hblank

theorem expect?_cons (h : isBlank c = false) : expect? c (c :: rest) = some rest := by
  simp [expect?, skip_cons h]

@[simp] theorem expect?_newline_append : expect? c (newline depth ++ t) = expect? c t := by
  simp [expect?]

/-- The text starts a part of a datum: neither with a blank nor with the given bracket. -/
def Starts (closing : Char) (t : Text) : Prop := ∃ c u, t = c :: u ∧ isBlank c = false ∧ c ≠ closing

theorem Starts.append (h : Starts closing t) : Starts closing (t ++ rest) := by
  obtain ⟨c, u, rfl, hblank, hne⟩ := h
  exact ⟨c, u ++ rest, rfl, hblank, hne⟩

theorem Starts.skip_eq (h : Starts closing t) : skip t = t := by
  obtain ⟨c, u, rfl, hblank, -⟩ := h
  exact skip_cons hblank

theorem Starts.expect?_eq_none (h : Starts closing t) : expect? closing t = none := by
  rw [expect?, h.skip_eq]
  obtain ⟨c, u, rfl, -, hne⟩ := h
  exact if_neg hne

/-! ## Strings -/

/-- The character that a letter behind a backslash stands for. -/
def unescape? (c : Char) : Option Char :=
  if c = '"' ∨ c = '\\' ∨ c = '/' then some c
  else if c = 'n' then some '\n'
  else if c = 'r' then some '\r'
  else if c = 't' then some '\t'
  else if c = 'b' then some (Char.ofNat 0x8)
  else if c = 'f' then some (Char.ofNat 0xC)
  else none

/-- A character in front of what a reader has read. -/
def prepend (c : Char) (r : Text × Text) : Text × Text := (c :: r.1, r.2)

/-- The characters of a string up to its closing quote mark, and what follows it. A control
character must be escaped. -/
def readChars? : Text → Option (Text × Text)
  | [] => none
  | '"' :: t => some ([], t)
  | '\\' :: 'u' :: d₁ :: d₂ :: d₃ :: d₄ :: t =>
    (Text.readHex? [d₁, d₂, d₃, d₄]).bind fun n => (readChars? t).map (prepend (Char.ofNat n))
  | '\\' :: c :: t => (unescape? c).bind fun c => (readChars? t).map (prepend c)
  | c :: t => if c.toNat < 0x20 then none else (readChars? t).map (prepend c)

/-- What is written for a character is read back as the character. -/
theorem readChars?_escape_append (c : Char) :
    readChars? (escape c ++ t) = (readChars? t).map (prepend c) := by
  unfold escape
  split_ifs with hmark hline hreturn htab hback hfeed hcontrol
  · rcases hmark with rfl | rfl <;> rfl
  · subst hline; rfl
  · subst hreturn; rfl
  · subst htab; rfl
  · subst hback; rfl
  · subst hfeed; rfl
  · -- A control character without a letter of its own is written by its code point.
    have hvalue : Text.readHex? (Text.hexDigits 4 c.toNat) = some c.toNat := by
      rw [Text.readHex?_hexDigits, Nat.mod_eq_of_lt (by omega)]
    show (Text.readHex? (Text.hexDigits 4 c.toNat)).bind
      (fun n => (readChars? t).map (prepend (Char.ofNat n))) = _
    rw [hvalue, Option.bind_some, Char.ofNat_toNat]
  · obtain ⟨hquote, hbackslash⟩ := not_or.1 hmark
    show readChars? (c :: t) = _
    rw [readChars?]
    · exact if_neg hcontrol
    · exact hquote
    · exact fun _ _ _ _ _ h _ => hbackslash h
    · exact fun _ _ h _ => hbackslash h

/-- What is written for a text is read back as the text. -/
theorem readChars?_append (u : Text) :
    readChars? (u.flatMap escape ++ '"' :: rest) = some (u, rest) := by
  induction u with
  | nil => rfl
  | cons c u ih => rw [List.flatMap_cons, List.append_assoc, readChars?_escape_append, ih]; rfl

/-! ## Items between brackets -/

section Enclosed

variable {α : Type} {item : Text → Option (α × Text)} {written : α → Text} {x : α} {xs : List α}
  {u : Text} {ts : List Text} {opening : Char} {fuel : Nat}

/-- The items up to a closing bracket, with commas between them; at most `fuel` of them. -/
def readItems? (item : Text → Option (α × Text)) (closing : Char) :
    Nat → Text → Option (List α × Text)
  | 0, _ => none
  | fuel + 1, t =>
    (item (skip t)).bind fun (x, rest) =>
      match expect? ',' rest with
      | some rest => (readItems? item closing fuel rest).map fun (xs, rest) => (x :: xs, rest)
      | none => (expect? closing rest).map fun rest => ([x], rest)

/-- The items of a list or record whose opening bracket has been read. -/
def readEnclosed? (item : Text → Option (α × Text)) (closing : Char) (t : Text) :
    Option (List α × Text) :=
  match expect? closing t with
  | some rest => some ([], rest)
  | none => readItems? item closing t.length t

/-- A reader reads a text as an item, whatever follows that may follow a number. -/
structure ReadsBack (item : Text → Option (α × Text)) (closing : Char) (t : Text) (x : α) :
    Prop where
  /-- The text starts neither with a blank nor with the closing bracket. -/
  starts : Starts closing t
  /-- It is read as the item. -/
  read : ∀ rest, Text.EndsNumber rest → item (t ++ rest) = some (x, rest)

/-- The lines of the items of a list or record, up to the closing bracket and what follows it. -/
def itemLines (closing : Char) (depth : Nat) (rest : Text) : List Text → Text
  | [] => closing :: rest
  | [u] => newline (depth + 1) ++ (u ++ (newline depth ++ closing :: rest))
  | u :: v :: ts => newline (depth + 1) ++ (u ++ ',' :: itemLines closing depth rest (v :: ts))

theorem enclosed_append :
    enclosed opening closing depth ts ++ rest = opening :: itemLines closing depth rest ts := by
  induction ts with
  | nil => rfl
  | cons u ts ih =>
    cases ts with
    | nil => simp [enclosed, itemLines, Text.join]
    | cons v ts =>
      have hjoin : Text.join (',' :: newline (depth + 1)) (u :: v :: ts) =
          u ++ ',' :: newline (depth + 1) ++ Text.join (',' :: newline (depth + 1)) (v :: ts) :=
        List.intercalate_cons_cons
      rw [itemLines, ← (List.cons.inj ih).2]
      simp [enclosed, hjoin]

theorem enclosed_eq_cons :
    enclosed opening closing depth ts = opening :: itemLines closing depth [] ts := by
  rw [← enclosed_append, List.append_nil]

theorem length_le_length_itemLines (h : u ∈ ts) :
    u.length ≤ (itemLines closing depth rest ts).length := by
  induction ts with
  | nil => exact absurd h List.not_mem_nil
  | cons v ts ih =>
    cases ts with
    | nil =>
      rw [List.mem_singleton.1 h]
      simp only [itemLines, List.length_append]
      omega
    | cons w ts =>
      simp only [itemLines, List.length_append, List.length_cons]
      rcases List.mem_cons.1 h with rfl | h
      · omega
      · have hle := ih h
        omega

theorem itemCount_le_length_itemLines : ts.length ≤ (itemLines closing depth rest ts).length := by
  induction ts with
  | nil => exact Nat.zero_le _
  | cons v ts ih =>
    cases ts with
    | nil =>
      simp only [itemLines, List.length_append, List.length_cons, List.length_nil]
      omega
    | cons w ts =>
      simp only [itemLines, List.length_append, List.length_cons] at ih ⊢
      omega

theorem length_lt_length_enclosed (h : u ∈ ts) :
    u.length < (enclosed opening closing depth ts).length := by
  have hle : u.length ≤ (itemLines closing depth [] ts).length := length_le_length_itemLines h
  rw [enclosed_eq_cons]
  exact Nat.lt_succ_of_le hle

theorem endsNumber_newline_append : Text.EndsNumber (newline depth ++ t) :=
  Text.endsNumber_cons.2 rfl

/-- An item at the start of a line is read there. -/
theorem ReadsBack.read_newline_append (h : ReadsBack item closing t x)
    (hrest : Text.EndsNumber rest) :
    item (skip (newline depth ++ (t ++ rest))) = some (x, rest) := by
  rw [skip_newline_append, h.starts.append.skip_eq, h.read rest hrest]

variable (hclosing : closing = ']' ∨ closing = '\x7d')

include hclosing

theorem isBlank_closing : isBlank closing = false := by rcases hclosing with rfl | rfl <;> rfl

/-- The items on the lines up to the closing bracket are read, by induction on the list of them. -/
theorem readItems?_itemLines (hitem : ∀ x ∈ xs, ReadsBack item closing (written x) x)
    (hne : xs ≠ []) (hfuel : xs.length ≤ fuel) :
    readItems? item closing fuel (itemLines closing depth rest (xs.map written)) =
      some (xs, rest) := by
  have hblank : isBlank closing = false := isBlank_closing hclosing
  have hcomma : expect? ',' (newline depth ++ closing :: rest) = none := by
    rcases hclosing with rfl | rfl <;> simp [expect?, skip_cons hblank]
  induction xs generalizing fuel with
  | nil => exact absurd rfl hne
  | cons x xs ih =>
    cases fuel with
    | zero => exact absurd hfuel (Nat.not_succ_le_zero _)
    | succ fuel =>
      have hx : ReadsBack item closing (written x) x := hitem x List.mem_cons_self
      cases xs with
      | nil =>
        simp only [List.map_cons, List.map_nil, itemLines, readItems?,
          hx.read_newline_append endsNumber_newline_append, Option.bind_some, hcomma,
          expect?_newline_append, expect?_cons hblank, Option.map_some]
      | cons y ys =>
        have hrest := ih (fun z hz => hitem z (List.mem_cons_of_mem x hz)) (List.cons_ne_nil y ys)
          (Nat.le_of_succ_le_succ hfuel)
        have hread : ∀ after, item (skip (newline (depth + 1) ++ (written x ++ ',' :: after))) =
            some (x, ',' :: after) :=
          fun after => hx.read_newline_append (Text.endsNumber_cons.2 rfl)
        have hnext : ∀ after, expect? ',' (',' :: after) = some after := fun _ => expect?_cons rfl
        rw [List.map_cons, List.map_cons, itemLines, ← List.map_cons, readItems?, hread]
        simp only [Option.bind_some, hnext, hrest, Option.map_some]

/-- What is written between brackets is read back as its items. -/
theorem readEnclosed?_itemLines (hitem : ∀ x ∈ xs, ReadsBack item closing (written x) x) :
    readEnclosed? item closing (itemLines closing depth rest (xs.map written)) =
      some (xs, rest) := by
  cases xs with
  | nil =>
    show readEnclosed? item closing (closing :: rest) = _
    rw [readEnclosed?, expect?_cons (isBlank_closing hclosing)]
  | cons x xs =>
    have hstarts : Starts closing (written x) := (hitem x List.mem_cons_self).starts
    have hnone : expect? closing (itemLines closing depth rest ((x :: xs).map written)) = none := by
      cases xs with
      | nil => exact expect?_newline_append.trans hstarts.append.expect?_eq_none
      | cons y ys => exact expect?_newline_append.trans hstarts.append.expect?_eq_none
    rw [readEnclosed?, hnone]
    refine readItems?_itemLines hclosing hitem (List.cons_ne_nil x xs) ?_
    exact (List.length_map written).symm.le.trans itemCount_le_length_itemLines

end Enclosed

/-! ## Data -/

/-- A key with its value, and what follows them. -/
def readField? (value : Text → Option (Datum × Text)) : Text → Option ((Text × Datum) × Text)
  | '"' :: t =>
    (readChars? t).bind fun (key, rest) => (expect? ':' rest).bind fun rest =>
      (value (skip rest)).map fun (d, rest) => ((key, d), rest)
  | _ => none

/-- The datum, other than a number, that a text starts with, and what follows it; `value` reads the
data in it. -/
def readStructure? (value : Text → Option (Datum × Text)) : Text → Option (Datum × Text)
  | '"' :: t => (readChars? t).map fun (u, rest) => (.text u, rest)
  | '[' :: t => (readEnclosed? value ']' t).map fun (items, rest) => (.list items, rest)
  | '\x7b' :: t =>
    (readEnclosed? (readField? value) '\x7d' t).map fun (fields, rest) => (.record fields, rest)
  | 'n' :: 'u' :: 'l' :: 'l' :: rest => some (.null, rest)
  | 't' :: 'r' :: 'u' :: 'e' :: rest => some (.bool true, rest)
  | 'f' :: 'a' :: 'l' :: 's' :: 'e' :: rest => some (.bool false, rest)
  | _ => none

/-- The datum that a text starts with, and what follows it; at most `fuel` data deep. -/
def readValue? : Nat → Text → Option (Datum × Text)
  | 0, _ => none
  | fuel + 1, t =>
    match Text.readInt? t with
    | some (i, rest) => some (.int i, rest)
    | none => readStructure? (readValue? fuel) t

/-- The datum that a text spells in JSON, with blanks around it. -/
def read? (t : Text) : Option Datum :=
  match readValue? t.length (skip t) with
  | some (d, rest) => if (skip rest).isEmpty then some d else none
  | none => none

/-- A datum without numbers that have a point or an exponent. -/
inductive Whole : Datum → Prop where
  /-- The absent value. -/
  | null : Whole .null
  /-- A truth value. -/
  | bool (b : Bool) : Whole (.bool b)
  /-- An integer. -/
  | int (i : Int) : Whole (.int i)
  /-- A text. -/
  | text (u : Text) : Whole (.text u)
  /-- A list of such data. -/
  | list {items : List Datum} (h : ∀ d ∈ items, Whole d) : Whole (.list items)
  /-- A record of such data. -/
  | record {fields : List (Text × Datum)} (h : ∀ f ∈ fields, Whole f.2) : Whole (.record fields)

/-- What is written for a field of a record. -/
def writeField (depth : Nat) (f : Text × Datum) : Text :=
  string f.1 ++ ": ".toList ++ write depth f.2

theorem writeItems_eq_map (items : List Datum) :
    writeItems depth items = items.map (write depth) := by
  induction items with
  | nil => rfl
  | cons d items ih => rw [writeItems, ih, List.map_cons]

theorem writeFields_eq_map (fields : List (Text × Datum)) :
    writeFields depth fields = fields.map (writeField depth) := by
  induction fields with
  | nil => rfl
  | cons f fields ih =>
    obtain ⟨key, d⟩ := f
    rw [writeFields, ih, List.map_cons, writeField]

/-- Numbers start with neither a blank nor a bracket. -/
theorem starts_ofInt (hclosing : closing = ']' ∨ closing = '\x7d') (i : Int) :
    Starts closing (Text.ofInt i) := by
  cases i with
  | negSucc n => exact ⟨'-', _, rfl, rfl, by rcases hclosing with rfl | rfl <;> decide⟩
  | ofNat n =>
    obtain ⟨c, digits, hcons⟩ := List.exists_cons_of_ne_nil (Text.ofNat_ne_nil n)
    have hdigit : c.isDigit = true := Text.isDigit_of_mem_ofNat (hcons ▸ List.mem_cons_self)
    refine ⟨c, digits, hcons, ?_, ?_⟩
    · rw [← Bool.not_eq_true]
      intro hblank
      exact absurd hdigit (by simp [isDigit_eq_false_of_isBlank hblank])
    · rintro rfl
      rcases hclosing with rfl | rfl <;> exact absurd hdigit (by decide)

/-- What is written for a datum starts with a character of its own. -/
theorem starts_write {d : Datum} (hclosing : closing = ']' ∨ closing = '\x7d') (hd : Whole d) :
    Starts closing (write depth d) := by
  have hstart : ∀ c u, isBlank c = false → c ≠ ']' → c ≠ '\x7d' → Starts closing (c :: u) := by
    intro c u hblank hbracket hbrace
    refine ⟨c, u, rfl, hblank, ?_⟩
    rcases hclosing with rfl | rfl
    · exact hbracket
    · exact hbrace
  cases hd with
  | null => exact hstart _ _ rfl (by decide) (by decide)
  | bool b => cases b <;> exact hstart _ _ rfl (by decide) (by decide)
  | int i => exact starts_ofInt hclosing i
  | text u => exact hstart _ _ rfl (by decide) (by decide)
  | list h =>
    rw [write, enclosed_eq_cons]
    exact hstart _ _ rfl (by decide) (by decide)
  | record h =>
    rw [write, enclosed_eq_cons]
    exact hstart _ _ rfl (by decide) (by decide)

/-- A field is read back if its value is. -/
theorem ReadsBack.field {value : Text → Option (Datum × Text)} {f : Text × Datum}
    (h : ReadsBack value '\x7d' (write depth f.2) f.2) :
    ReadsBack (readField? value) '\x7d' (writeField depth f) f := by
  obtain ⟨key, d⟩ := f
  refine ⟨⟨'"', _, rfl, rfl, by decide⟩, fun rest hrest => ?_⟩
  have htext : writeField depth (key, d) ++ rest =
      '"' :: (key.flatMap escape ++ '"' :: ':' :: ' ' :: (write depth d ++ rest)) := by
    simp [writeField, string]
  have hvalue : value (skip (' ' :: (write depth d ++ rest))) = some (d, rest) := by
    show value (skip (write depth d ++ rest)) = _
    rw [h.starts.append.skip_eq, h.read rest hrest]
  have hcolon : expect? ':' (':' :: ' ' :: (write depth d ++ rest)) = some _ := expect?_cons rfl
  rw [htext, readField?, readChars?_append]
  simp only [Option.bind_some, hcolon, hvalue, Option.map_some]

/-- What is written for a datum is read back as the datum. -/
theorem readsBack_write {fuel : Nat} {d : Datum} (hclosing : closing = ']' ∨ closing = '\x7d')
    (hd : Whole d) (hfuel : (write depth d).length ≤ fuel) :
    ReadsBack (readValue? fuel) closing (write depth d) d := by
  -- What is written for an item is shorter than what is written for the list it is in, so fuel that
  -- is enough for the list is enough for the item when the list has used up one.
  induction fuel generalizing d depth closing with
  | zero =>
    obtain ⟨c, u, hcons, -, -⟩ : Starts closing (write depth d) := starts_write hclosing hd
    rw [hcons] at hfuel
    exact absurd hfuel (Nat.not_succ_le_zero _)
  | succ fuel ih =>
    refine ⟨starts_write hclosing hd, fun rest hrest => ?_⟩
    cases hd with
    | null => rfl
    | bool b => cases b <;> rfl
    | int i => rw [write, readValue?, Text.readInt?_ofInt_append i hrest]
    | text u =>
      show (readChars? ((u.flatMap escape ++ ['"']) ++ rest)).map _ = _
      rw [List.append_assoc]
      exact congrArg _ (readChars?_append u)
    | @list items h =>
      have hitem : ∀ d ∈ items, ReadsBack (readValue? fuel) ']' (write (depth + 1) d) d := by
        intro d hd
        refine ih (.inl rfl) (h d hd) (Nat.le_of_lt_succ (Nat.lt_of_lt_of_le ?_ hfuel))
        rw [write, writeItems_eq_map]
        exact length_lt_length_enclosed (List.mem_map_of_mem hd)
      rw [write, writeItems_eq_map, enclosed_append]
      show (readEnclosed? (readValue? fuel) ']' (itemLines ']' depth rest _)).map _ = _
      rw [readEnclosed?_itemLines (.inl rfl) hitem]
      rfl
    | @record fields h =>
      have hfield : ∀ f ∈ fields,
          ReadsBack (readField? (readValue? fuel)) '\x7d' (writeField (depth + 1) f) f := by
        intro f hf
        refine (ih (.inr rfl) (h f hf) (Nat.le_of_lt_succ (Nat.lt_of_lt_of_le ?_ hfuel))).field
        have hlt : (writeField (depth + 1) f).length < (write depth (.record fields)).length := by
          rw [write, writeFields_eq_map]
          exact length_lt_length_enclosed (List.mem_map_of_mem hf)
        refine Nat.lt_of_le_of_lt ?_ hlt
        rw [writeField, List.length_append]
        exact Nat.le_add_left _ _
      rw [write, writeFields_eq_map, enclosed_append]
      show (readEnclosed? (readField? (readValue? fuel)) '\x7d'
        (itemLines '\x7d' depth rest _)).map _ = _
      rw [readEnclosed?_itemLines (.inr rfl) hfield]
      rfl

/-- What is written for a datum spells the datum, also with blanks behind it. -/
theorem read?_write_append {d : Datum} (hd : Whole d) (hrest : ∀ c ∈ rest, isBlank c = true) :
    read? (write depth d ++ rest) = some d := by
  have hends : Text.EndsNumber rest :=
    fun c hc => isDigit_eq_false_of_isBlank (hrest c (List.mem_of_mem_head? hc))
  have hlength : (write depth d).length ≤ (write depth d ++ rest).length := by
    rw [List.length_append]
    exact Nat.le_add_right _ _
  have hread := readsBack_write (.inl rfl) hd hlength
  have hnil : skip rest = [] := List.dropWhile_eq_nil_iff.2 hrest
  rw [read?, hread.starts.append.skip_eq, hread.read rest hends]
  simp [hnil]

end DottedNames.Json
