import DottedNames.Proofs.Log.Session
import DottedNames.Proofs.Text.Numeral
import DottedNames.Proofs.Text.Rows

/-!
# Lines of the log

How a piece of a template renders does not depend on what stands around it (`Template.Renders`): a
text without markup and braces stands for itself, a tagged piece for what is between the tags, and
the place of the message for the message, whatever characters that has. So the line of a record
whose origin has no markup and no braces is its time, its origin, in the mode for debugging its
level, and its message as it is (`Written.line_eq`).
-/

namespace DottedNames

/-! ## Tags -/

namespace Tag

variable {name rest : Text} {t : Tag}

/-- Whether a text can be the name of a tag as it stands. -/
structure IsName (name : Text) : Prop where
  /-- The name has no blank, no brace and no angle bracket. -/
  isNameChar : name.all isNameChar = true
  /-- The name does not make a tag that opens look like one that closes. -/
  head?_ne : name.head? ≠ some '/'

theorem isBlank_of_isNameChar {c : Char} (h : isNameChar c = true) : Text.isBlank c = false := by
  simp only [isNameChar, Bool.and_eq_true, Bool.not_eq_true'] at h
  exact h.2

/-- Without a blank in the third place no ground is meant. -/
theorem groundLength_eq_zero
    (h : ∀ a b c u, rest = a :: b :: c :: u → a = 'f' ∨ a = 'b' → b = 'g' →
      Text.isBlank c = false) : groundLength rest = 0 := by
  unfold groundLength
  split
  · rw [h _ _ _ _ rfl (.inl rfl) rfl]
    rfl
  · rw [h _ _ _ _ rfl (.inr rfl) rfl]
    rfl
  · rfl

/-- A name has no blank behind the letters that say which ground is meant. -/
theorem groundLength_append (h : name.all isNameChar = true) :
    groundLength (name ++ '>' :: rest) = 0 := by
  refine groundLength_eq_zero fun a b c u heq ha hb => ?_
  match name, heq, h with
  | [], heq, _ =>
    obtain rfl := (List.cons.inj heq).1
    exact absurd ha (by decide)
  | [_], heq, _ =>
    obtain rfl := (List.cons.inj (List.cons.inj heq).2).1
    exact absurd hb (by decide)
  | [_, _], heq, _ =>
    obtain rfl := (List.cons.inj (List.cons.inj (List.cons.inj heq).2).2).1
    decide +kernel
  | _ :: _ :: d :: _, heq, h =>
    obtain rfl := (List.cons.inj (List.cons.inj (List.cons.inj heq).2).2).1
    exact isBlank_of_isNameChar (List.all_eq_true.1 h d (by simp))

/-- The name of a tag ends in front of the bracket. -/
theorem nameAt?_append (h : name.all isNameChar = true) :
    nameAt? (name ++ '>' :: rest) = some name := by
  have hname : (name ++ '>' :: rest).takeWhile isNameChar = name :=
    Text.takeWhile_append_eq (List.all_eq_true.1 h) (by rintro c ⟨⟩; rfl)
  simp only [nameAt?, groundLength_append h, List.take_zero, List.drop_zero, List.nil_append, hname,
    List.drop_left, List.head?_cons, if_true]

/-- The written form of a tag is read as the tag. -/
theorem at?_text_append (h : IsName t.name) : at? (t.text ++ rest) = some t := by
  obtain ⟨closing, name⟩ := t
  have hname : nameAt? (name ++ '>' :: rest) = some name := nameAt?_append h.isNameChar
  cases closing with
  | true =>
    show (nameAt? ((name ++ ['>']) ++ rest)).map (Tag.mk true) = _
    rw [List.append_assoc]
    exact congrArg (Option.map (Tag.mk true)) hname
  | false =>
    have hread : at? ('<' :: (name ++ '>' :: rest)) =
        (nameAt? (name ++ '>' :: rest)).map (Tag.mk false) := by
      refine at?.eq_2 _ fun tail heq => ?_
      cases name with
      | nil => exact absurd (List.cons.inj heq).1 (by decide)
      | cons c name => exact h.head?_ne (congrArg some (List.cons.inj heq).1)
    show at? ('<' :: ((name ++ ['>']) ++ rest)) = _
    rw [List.append_assoc]
    exact hread.trans (congrArg (Option.map (Tag.mk false)) hname)

/-- No tag begins with any other character than an opening bracket. -/
theorem at?_cons_of_ne {c : Char} (h : c ≠ '<') : at? (c :: rest) = none := by
  unfold at?
  split
  · next heq => exact absurd (List.cons.inj heq).1 h
  · next heq => exact absurd (List.cons.inj heq).1 h
  · rfl

end Tag

/-! ## Pieces of templates -/

namespace Template

variable {field? : Text → Option FieldValue} {t t' u u' : Text} {name : String} {r : LogRecord}
  {m : Moment}

/-- Wherever it stands in a template, the text `t` gives `u`. -/
def Renders (field? : Text → Option FieldValue) (t u : Text) : Prop :=
  ∀ opened rest,
    renderFrom field? opened (t ++ rest) = (renderFrom field? opened rest).map (u ++ ·)

/-- Whether a character stands for itself wherever it stands in a template. -/
def isPlain (c : Char) : Bool := c ∉ [openBrace, closeBrace, '\\', '<']

theorem isPlain_of_isDigit {c : Char} (h : c.isDigit = true) : isPlain c = true := by
  simp only [isPlain, List.mem_cons, List.not_mem_nil, or_false, decide_eq_true_eq]
  rintro (rfl | rfl | rfl | rfl) <;> exact absurd h (by decide)

theorem Renders.append (h : Renders field? t u) (h' : Renders field? t' u') :
    Renders field? (t ++ t') (u ++ u') := by
  intro opened rest
  rw [List.append_assoc, h, h', Option.map_map]
  simp only [Function.comp_def, List.append_assoc]

/-- A text that is made of such pieces gives what the pieces give together. -/
theorem Renders.render (h : Renders field? t u) : render field? t = some u := by
  have hend := h [] []
  rw [List.append_nil, renderFrom] at hend
  rw [Template.render, hend]
  simp

/-- A character that is not active, and does not begin a tag, stands for itself. -/
theorem renderFrom_cons_of_at?_eq_none {c : Char} {opened : List Text} {rest : Text}
    (hbraces : c ≠ openBrace ∧ c ≠ closeBrace) (hc : c ≠ '\\') (h : Tag.at? (c :: rest) = none) :
    renderFrom field? opened (c :: rest) = (renderFrom field? opened rest).map (c :: ·) := by
  rw [renderFrom, if_neg hbraces.1, if_neg hbraces.2, if_neg hc, h]

theorem renderFrom_cons_of_isPlain {c : Char} (h : isPlain c = true) (opened : List Text)
    (rest : Text) :
    renderFrom field? opened (c :: rest) = (renderFrom field? opened rest).map (c :: ·) := by
  simp only [isPlain, List.mem_cons, List.not_mem_nil, or_false, not_or, decide_eq_true_eq] at h
  obtain ⟨hopen, hclose, hbackslash, hbracket⟩ := h
  exact renderFrom_cons_of_at?_eq_none ⟨hopen, hclose⟩ hbackslash (Tag.at?_cons_of_ne hbracket)

/-- A text of plain characters stands for itself. -/
theorem renders_of_all_isPlain (h : t.all isPlain = true) : Renders field? t t := by
  intro opened rest
  induction t with
  | nil => simp
  | cons c t ih =>
    rw [List.all_cons, Bool.and_eq_true] at h
    obtain ⟨hc, ht⟩ := h
    rw [List.cons_append, renderFrom_cons_of_isPlain hc, ih ht, Option.map_map]
    rfl

theorem Renders.cons {c : Char} (hc : isPlain c = true) (h : Renders field? t u) :
    Renders field? (c :: t) (c :: u) :=
  (renders_of_all_isPlain (List.all_eq_true.2 (List.forall_mem_singleton.2 hc))).append h

/-- A tag that is read is dropped, and opens or closes a stretch. -/
theorem renderFrom_of_at? {tag : Tag} {opened : List Text} {rest : Text}
    (h : Tag.at? (tag.text ++ rest) = some tag) :
    renderFrom field? opened (tag.text ++ rest) =
      (Markup.step opened tag).bind fun opened => renderFrom field? opened rest := by
  obtain ⟨body, hbody⟩ : ∃ body, tag.text = '<' :: body := ⟨_, rfl⟩
  have hlength : tag.length - 1 = body.length := by
    rw [Tag.length, hbody]
    rfl
  rw [hbody, List.cons_append] at h ⊢
  rw [renderFrom, if_neg (by decide), if_neg (by decide), if_neg (by decide), h]
  simp only [hlength, List.drop_left]
  rfl

theorem isName_green : Tag.IsName "green".toList := ⟨by decide +kernel, by decide⟩

theorem isName_cyan : Tag.IsName "cyan".toList := ⟨by decide +kernel, by decide⟩

theorem isName_level : Tag.IsName "level".toList := ⟨by decide +kernel, by decide⟩

/-- The tag in front of a tagged piece opens its stretch. -/
theorem renderFrom_tagged (hname : Tag.IsName name.toList)
    (hknown : Markup.isKnown name.toList = true) (opened : List Text) (rest : Text) :
    renderFrom field? opened (tagged name t ++ rest) =
      renderFrom field? (name.toList :: opened)
        (t ++ ((Tag.mk true name.toList).text ++ rest)) := by
  have hopen : Markup.step opened ⟨false, name.toList⟩ = some (name.toList :: opened) := by
    simp [Markup.step, hknown]
  rw [tagged, List.append_assoc, List.append_assoc,
    renderFrom_of_at? (Tag.at?_text_append hname), hopen, Option.bind_some]

/-- The tag behind a tagged piece closes its stretch. -/
theorem renderFrom_closing (hname : Tag.IsName name.toList) (opened : List Text) (rest : Text) :
    renderFrom field? (name.toList :: opened) ((Tag.mk true name.toList).text ++ rest) =
      renderFrom field? opened rest := by
  have hclose : Markup.step (name.toList :: opened) ⟨true, name.toList⟩ = some opened := by
    simp [Markup.step]
  rw [renderFrom_of_at? (Tag.at?_text_append hname), hclose, Option.bind_some]

/-- The tags around a piece are dropped. -/
theorem Renders.tagged (h : Renders field? t u) (hname : Tag.IsName name.toList)
    (hknown : Markup.isKnown name.toList = true) : Renders field? (tagged name t) u := by
  intro opened rest
  rw [renderFrom_tagged hname hknown, h, renderFrom_closing hname]

/-- The placeholder of the message is replaced by the message, without any layout. -/
theorem fill?_message : fill? (r.field? m) ⟨"message".toList, none, []⟩ = some r.message := by
  have hname : "message".toList.takeWhile (fun c => !Placeholder.endsName c) =
      "message".toList := by decide
  have hselectors : Placeholder.selectors? [] = some [] := by rw [Placeholder.selectors?]
  have hvalue : Placeholder.value? (r.field? m) "message".toList =
      some (.datum (.text r.message)) := by
    rw [Placeholder.value?, hname, List.drop_length, hselectors]
    rfl
  rw [fill?, fillPresentation?, Option.bind_eq_bind, Option.bind_some, Placeholder.fill?, hvalue]
  rfl

/-- The place of the message gives the message, whatever characters the message has. -/
theorem renders_messageField : Renders (r.field? m) messageField r.message := by
  intro opened rest
  have hread : Placeholder.read? ("message".toList ++ (closeBrace :: rest)) =
      some (⟨"message".toList, none, []⟩, rest) := rfl
  have hcons : messageField ++ rest = openBrace :: ("message".toList ++ (closeBrace :: rest)) := rfl
  have hhead : ("message".toList ++ (closeBrace :: rest)).head? ≠ some openBrace :=
    fun h => absurd (Option.some.inj h) (by decide)
  rw [hcons, renderFrom, if_pos rfl, if_neg hhead]
  split
  · next p behind heq =>
    rw [hread] at heq
    cases heq
    rw [fill?_message]
    cases renderFrom (r.field? m) opened rest <;> rfl
  · next heq =>
    rw [hread] at heq
    cases heq

end Template

/-! ## Times -/

theorem Text.isDigit_of_mem_padded {width n : Nat} {c : Char} (h : c ∈ padded width n) :
    c.isDigit = true := by
  rcases List.mem_append.1 h with hzero | hdigit
  · rw [List.eq_of_mem_replicate hzero]
    rfl
  · exact isDigit_of_mem_ofNat hdigit

theorem Text.padded_ne_nil (width n : Nat) : padded width n ≠ [] := by
  intro h
  exact ofNat_ne_nil n (List.append_eq_nil_iff.1 h).2

namespace TimeOfDay

variable {t : TimeOfDay} {c : Char}

/-- A time of day is written with digits, colons and a point. -/
theorem mem_text (h : c ∈ t.text) : c.isDigit = true ∨ c = ':' ∨ c = '.' := by
  simp only [text, secondText, minuteText, List.mem_append, List.mem_cons] at h
  rcases h with ((h | h | h) | h | h) | h | h
  · exact .inl (Text.isDigit_of_mem_padded h)
  · exact .inr (.inl h)
  · exact .inl (Text.isDigit_of_mem_padded h)
  · exact .inr (.inl h)
  · exact .inl (Text.isDigit_of_mem_padded h)
  · exact .inr (.inr h)
  · exact .inl (Text.isDigit_of_mem_padded h)

/-- A time of day starts with a digit. -/
theorem exists_head?_text (t : TimeOfDay) : ∃ c, t.text.head? = some c ∧ c.isDigit = true := by
  obtain ⟨c, rest, hcons⟩ := List.exists_cons_of_ne_nil (Text.padded_ne_nil 2 t.hour)
  refine ⟨c, ?_, Text.isDigit_of_mem_padded (hcons ▸ List.mem_cons_self)⟩
  simp [text, secondText, minuteText, hcons]

theorem all_isPlain_text (t : TimeOfDay) : t.text.all Template.isPlain = true := by
  refine List.all_eq_true.2 fun c hc => ?_
  rcases mem_text hc with hdigit | rfl | rfl
  · exact Template.isPlain_of_isDigit hdigit
  · decide
  · decide

end TimeOfDay

/-! ## Lines -/

namespace LogRecord

/-- What is shown of a record behind its origin. -/
def shownEnd (mode : LogMode) (r : LogRecord) : Text :=
  ' ' :: (if mode = .debug then '[' :: r.level.name ++ [']', ' '] else []) ++ r.message ++ ['\n']

/-- The origin of a record of this library that names an action. -/
theorem origin_ownBindings_action {name : String} (h : name.toList ≠ []) :
    origin (ownBindings (Session.action name)) = "fqnkit:".toList ++ name.toList := by
  have htruthy : (Datum.text name.toList).truthy = true := by simp [Datum.truthy, h]
  show (if (Datum.text name.toList).truthy = true then domain ++ ':' :: name.toList else domain) = _
  rw [if_pos htruthy]
  rfl

end LogRecord

namespace Template

variable {field? : Text → Option FieldValue}

/-- What stands in front of the origin in the template of a line. -/
def lineStart (time : TimeOfDay) : Text := tagged "green" time.text ++ [' ']

/-- What stands behind the origin in the template of a line. -/
def lineEnd (mode : LogMode) (level : Text) : Text :=
  ' ' :: (if mode = .debug then '[' :: tagged "level" level ++ [']', ' '] else []) ++
    tagged "level" messageField ++ ['\n']

theorem line_eq_append (mode : LogMode) (time : TimeOfDay) (level : Text) (bs : Bindings) :
    line mode time level bs =
      lineStart time ++ (tagged "cyan" (LogRecord.origin bs) ++ lineEnd mode level) := by
  simp only [line, lineStart, lineEnd, List.append_assoc, List.cons_append, List.nil_append]

theorem renders_lineStart (m : Moment) :
    Renders field? (lineStart m.time) (m.time.text ++ [' ']) := by
  have htime : Renders field? (tagged "green" m.time.text) m.time.text :=
    (renders_of_all_isPlain m.time.all_isPlain_text).tagged isName_green (by decide)
  exact htime.append (renders_of_all_isPlain (by decide))

theorem renders_lineEnd (m : Moment) (mode : LogMode) (r : LogRecord) :
    Renders (r.field? m) (lineEnd mode r.level.name) (r.shownEnd mode) := by
  have hlevelName : r.level.name.all isPlain = true := by
    cases r.level <;> decide
  have hlevel : Renders (r.field? m)
      (if mode = .debug then '[' :: tagged "level" r.level.name ++ [']', ' '] else [])
      (if mode = .debug then '[' :: r.level.name ++ [']', ' '] else []) := by
    split
    · have hname : Renders (r.field? m) (tagged "level" r.level.name) r.level.name :=
        (renders_of_all_isPlain hlevelName).tagged isName_level (by decide)
      exact (hname.cons (by decide)).append (renders_of_all_isPlain (by decide))
    · exact renders_of_all_isPlain rfl
  have hmessage : Renders (r.field? m) (tagged "level" messageField) r.message :=
    renders_messageField.tagged isName_level (by decide)
  exact ((hlevel.cons (by decide)).append hmessage).append (renders_of_all_isPlain (by decide))

end Template

namespace Written

open Template

variable {w : Written} {m : Moment}

/-- What stands in front of the message in the line of a record. -/
def heading (m : Moment) (w : Written) : Text :=
  m.time.text ++ ' ' :: LogRecord.origin w.record.bindings ++
    ' ' :: if w.mode = .debug then '[' :: w.record.level.name ++ [']', ' '] else []

/-- The line of a record whose origin has no markup and no braces shows its message as it is. -/
theorem line_eq (h : (LogRecord.origin w.record.bindings).all isPlain = true) :
    w.line m = w.heading m ++ w.record.message ++ ['\n'] := by
  have horigin : Renders (w.record.field? m) (tagged "cyan" (LogRecord.origin w.record.bindings))
      (LogRecord.origin w.record.bindings) :=
    (renders_of_all_isPlain h).tagged isName_cyan (by decide)
  have hline := (renders_lineStart m).append (horigin.append (renders_lineEnd m w.mode w.record))
  rw [line, Template.line_eq_append, hline.render, Option.getD_some]
  simp only [heading, LogRecord.shownEnd, List.append_assoc, List.cons_append, List.nil_append]

/-- The record takes one line, and the origin in front of its message has no markup. -/
structure IsLine (w : Written) : Prop where
  /-- The origin has no markup and no braces. -/
  isPlain : (LogRecord.origin w.record.bindings).all isPlain = true
  /-- The origin is in one line. -/
  origin : '\n' ∉ LogRecord.origin w.record.bindings
  /-- The message is in one line. -/
  message : '\n' ∉ w.record.message

/-- A record of this library that names an action takes one line, if its message does. -/
theorem isLine_of_action {name : String} (hname : name.toList ≠ [])
    (hplain : name.toList.all Template.isPlain = true) (hline : '\n' ∉ name.toList)
    (hbindings : w.record.bindings = LogRecord.ownBindings (Session.action name))
    (hmessage : '\n' ∉ w.record.message) : w.IsLine := by
  have horigin : LogRecord.origin w.record.bindings = "fqnkit:".toList ++ name.toList := by
    rw [hbindings, LogRecord.origin_ownBindings_action hname]
  have hdomain : "fqnkit:".toList.all Template.isPlain = true := by decide
  have hdomainLine : '\n' ∉ "fqnkit:".toList := by decide
  refine ⟨?_, ?_, hmessage⟩
  · rw [horigin, List.all_append, hdomain, hplain, Bool.and_self]
  · rw [horigin, List.mem_append, not_or]
    exact ⟨hdomainLine, hline⟩

theorem lineFeed_notMem_heading (h : '\n' ∉ LogRecord.origin w.record.bindings) :
    '\n' ∉ w.heading m := by
  have htime : '\n' ∉ m.time.text := by
    intro hmem
    rcases TimeOfDay.mem_text hmem with hdigit | hcolon | hpoint
    · exact absurd hdigit (by decide)
    · exact absurd hcolon (by decide)
    · exact absurd hpoint (by decide)
  have hlevel : '\n' ∉ w.record.level.name := by cases w.record.level <;> decide
  simp [heading, htime, h, hlevel]

/-- Every record has its own line, in which the message stands behind the heading. -/
theorem lines_eq_rows {ws : List Written} (h : ∀ w ∈ ws, w.IsLine) :
    lines m ws = Text.rows (ws.map fun w => w.heading m ++ w.record.message) := by
  unfold lines Text.rows
  rw [List.flatMap_map]
  exact List.flatMap_congr fun w hw => line_eq (h w hw).isPlain

theorem splitOn_lines {ws : List Written} (h : ∀ w ∈ ws, w.IsLine) :
    (lines m ws).splitOn '\n' = ws.map (fun w => w.heading m ++ w.record.message) ++ [[]] := by
  have hnotMem : ∀ w ∈ ws, '\n' ∉ w.heading m ++ w.record.message := by
    intro w hw
    rw [List.mem_append, not_or]
    exact ⟨lineFeed_notMem_heading (h w hw).origin, (h w hw).message⟩
  rw [lines_eq_rows h]
  exact Text.splitOn_rows (List.forall_mem_map.2 hnotMem)

/-- A line starts with a digit of the time. -/
theorem exists_head?_heading (m : Moment) (w : Written) :
    ∃ c, (w.heading m).head? = some c ∧ c.isDigit = true := by
  obtain ⟨c, hhead, hdigit⟩ := m.time.exists_head?_text
  refine ⟨c, ?_, hdigit⟩
  simp [heading, hhead]

end Written

namespace Session

variable {s : Session} {w : Written} {r : LogRecord}

theorem record_of_mem_emit (h : w ∈ s.emit r) : w.record = r := by
  obtain ⟨k, -, rfl⟩ := List.mem_map.1 h
  rfl

/-- The one record of preparing the pattern. -/
theorem record_of_mem_prepare (h : w ∈ s.prepare.2) : w.record = preparation := by
  unfold prepare at h
  split at h
  · cases h
  · exact record_of_mem_emit h

end Session

end DottedNames
