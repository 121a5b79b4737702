import DottedNames.Log.Markup
import DottedNames.Log.Placeholder

/-!
# Templates of log lines

The template of a log line is a text in two small languages at once: the tags of
`DottedNames.Log.Markup` mark stretches of it, and the placeholders of `DottedNames.Log.Placeholder`
stand for values. A doubled brace stands for itself. A backslash in front of a tag takes its meaning
away, and two backslashes in front of a tag stand for one.

Rendering without colour drops the tags and puts in the values. A template with an unknown tag, a
stretch that is not closed in order, an unknown field or a lone brace cannot be rendered.
-/

namespace DottedNames

namespace Template

/-- A text in a stretch of the given colour. -/
def tagged (name : String) (t : Text) : Text :=
  (Tag.mk false name.toList).text ++ t ++ (Tag.mk true name.toList).text

/-- The place of the message. -/
def messageField : Text := openBrace :: "message".toList ++ [closeBrace]

/-- The template of the line of a record with the given time of day, level and fields
(`_custom_format`). -/
def line (mode : LogMode) (time : TimeOfDay) (level : Text) (bs : Bindings) : Text :=
  tagged "green" time.text ++ ' ' :: tagged "cyan" (LogRecord.origin bs) ++ ' ' ::
    (if mode = .debug then '[' :: tagged "level" level ++ [']', ' '] else []) ++
    tagged "level" messageField ++ ['\n']

/-! ## Rendering -/

/-- What a placeholder inside a presentation is replaced by. Its own presentation has no
placeholders. -/
def fillInner? (field? : Text → Option FieldValue) (p : Placeholder) : Option Text :=
  if openBrace ∈ p.presentation then none else p.fill? field? p.presentation

/-- A presentation with its placeholders replaced. -/
def fillPresentation? (field? : Text → Option FieldValue) : Text → Option Text
  | [] => some []
  | c :: rest =>
    if c = openBrace then
      if rest.head? = some openBrace then
        (fillPresentation? field? (rest.drop 1)).map (openBrace :: ·)
      else
        match _h : Placeholder.read? rest with
        | some (p, behind) => do
          return (← fillInner? field? p) ++ (← fillPresentation? field? behind)
        | none => none
    else if c = closeBrace then
      if rest.head? = some closeBrace then
        (fillPresentation? field? (rest.drop 1)).map (closeBrace :: ·)
      else none
    else (fillPresentation? field? rest).map (c :: ·)
termination_by t => t.length
decreasing_by
  all_goals simp only [List.length_drop, List.length_cons]
  all_goals first | omega | exact Nat.lt_succ_of_le (Placeholder.read?_length (by assumption))

/-- What a placeholder is replaced by. -/
def fill? (field? : Text → Option FieldValue) (p : Placeholder) : Option Text := do
  p.fill? field? (← fillPresentation? field? p.presentation)

/-- A template with the tags dropped and the values put in, when the stretches of `opened` are open
at its start. -/
def renderFrom (field? : Text → Option FieldValue) (opened : List Text) : Text → Option Text
  | [] => if opened.isEmpty then some [] else none
  | c :: rest =>
    if c = openBrace then
      if rest.head? = some openBrace then
        (renderFrom field? opened (rest.drop 1)).map (openBrace :: ·)
      else
        match _h : Placeholder.read? rest with
        | some (p, behind) => do
          return (← fill? field? p) ++ (← renderFrom field? opened behind)
        | none => none
    else if c = closeBrace then
      if rest.head? = some closeBrace then
        (renderFrom field? opened (rest.drop 1)).map (closeBrace :: ·)
      else none
    else if c = '\\' then
      let more := (rest.takeWhile (· == '\\')).length
      match Tag.at? (rest.drop more) with
      | some tag =>
        let kept : Text := List.replicate ((more + 1) / 2) '\\'
        if more % 2 = 0 then
          (renderFrom field? opened (rest.drop (more + tag.length))).map (kept ++ tag.text ++ ·)
        else do
          let opened ← Markup.step opened tag
          return kept ++ (← renderFrom field? opened (rest.drop (more + tag.length)))
      | none => (renderFrom field? opened rest).map (c :: ·)
    else
      match Tag.at? (c :: rest) with
      | some tag => do
        let opened ← Markup.step opened tag
        renderFrom field? opened (rest.drop (tag.length - 1))
      | none => (renderFrom field? opened rest).map (c :: ·)
termination_by t => t.length
decreasing_by
  all_goals simp only [List.length_drop, List.length_cons]
  all_goals first | omega | exact Nat.lt_succ_of_le (Placeholder.read?_length (by assumption))

/-- The text that a template gives without colour, given the values of the fields. -/
def render (field? : Text → Option FieldValue) (template : Text) : Option Text :=
  renderFrom field? [] template

end Template

end DottedNames
