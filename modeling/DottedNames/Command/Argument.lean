import DottedNames.Command.Usage
import DottedNames.Text.DecimalDigit
import DottedNames.Text.Quoted

/-!
# How an argument is read

Before a level of the parser (`argparse`) takes its arguments, each of them is read by itself, as a
plain argument or as an option. An option may be spelled in full, by an unambiguous beginning of a
long flag, or as a short flag with something attached to it; a long flag may have a value behind an
equals sign. Numbers with a minus sign and arguments with a space are plain. The first `--` is a
separator, and everything behind it is plain.

An ambiguous beginning is the only thing that can be wrong with an argument by itself.
-/

namespace DottedNames.Command

/-- What is attached to a flag. -/
structure Attachment where
  /-- The text that is attached. -/
  text : Text
  /-- Whether an equals sign stands in front of it. -/
  behindEquals : Bool
deriving DecidableEq

/-- How an argument is read. -/
inductive Argument where
  /-- A plain argument. -/
  | plain (t : Text)
  /-- The separator. -/
  | separator
  /-- An option as it was typed, by one of its flags and by what is attached to the flag. -/
  | option (typed : Text) (o : CommandOption) (flag : Text) (attached : Option Attachment)
  /-- Something that looks like an option and is none of this level. -/
  | unknown (t : Text)
deriving DecidableEq

namespace Argument

/-- Whether an argument is read as an option, known or not. -/
def isOption : Argument → Bool
  | .option .. => true
  | .unknown _ => true
  | _ => false

/-- The separator as it is typed. -/
def separatorText : Text := ['-', '-']

/-- The flags of a level with their options. -/
def flagsOf (l : CommandLevel) : List (Text × CommandOption) :=
  l.options.flatMap fun o => o.flags.map fun f => (f, o)

/-- The option with exactly the given flag. -/
def ofFlag? (l : CommandLevel) (flag : Text) : Option CommandOption :=
  ((flagsOf l).find? (·.1 == flag)).map Prod.snd

/-- A text cut at its first equals sign, if it has one. -/
def cutAtEquals? (t : Text) : Option (Text × Text) :=
  let left := t.takeWhile (· != '=')
  match t.drop left.length with
  | _ :: right => some (left, right)
  | [] => none

/-- The long flags that a text can be short for, with the value behind an equals sign. -/
def longCandidates (l : CommandLevel) (t : Text) : List Argument :=
  let cut := cutAtEquals? t
  let left := (cut.map Prod.fst).getD t
  ((flagsOf l).filter fun f => left.isPrefixOf f.1).map fun f =>
    .option t f.2 f.1 (cut.map fun c => ⟨c.2, true⟩)

/-- The flags that a text with one dash can stand for: a short flag with the rest attached, or a
flag that starts with the text. -/
def shortCandidates (l : CommandLevel) (t : Text) : List Argument :=
  (flagsOf l).filterMap fun f =>
    if f.1 == t.take 2 then some (.option t f.2 f.1 (some ⟨t.drop 2, false⟩))
    else if t.isPrefixOf f.1 then some (.option t f.2 f.1 none)
    else none

/-- What a text that starts with a dash can stand for, apart from an exact flag. -/
def candidates (l : CommandLevel) (t : Text) : List Argument :=
  if separatorText.isPrefixOf t then longCandidates l t else shortCandidates l t

/-- An argument as it was typed. -/
def typed : Argument → Text
  | .option t _ _ _ => t
  | .plain t => t
  | .unknown t => t
  | .separator => separatorText

/-- An argument as the complaint about an ambiguity shows it: an option by its flag. -/
def flag : Argument → Text
  | .option _ _ f _ => f
  | a => a.typed

/-- Whether a text is a decimal number with a minus sign; a line feed may end it. -/
def isNegativeNumber (t : Text) : Bool :=
  match t with
  | '-' :: rest =>
    let body := if rest.getLast? = some '\n' then rest.dropLast else rest
    let whole := body.takeWhile Text.isDecimalDigit
    match body.drop whole.length with
    | [] => !whole.isEmpty
    | '.' :: fraction => !fraction.isEmpty && fraction.all Text.isDecimalDigit
    | _ => false
  | _ => false

/-- The complaint about a text that is short for more than one flag. -/
def ambiguity (t : Text) (found : List Argument) : Text :=
  "ambiguous option: ".toList ++ t ++ " could match ".toList ++
    Text.join ", ".toList (found.map flag)

/-- How a text is read that is not the separator, or the complaint about it. -/
def read (l : CommandLevel) (t : Text) : Except Text Argument :=
  if t.head? ≠ some '-' then .ok (.plain t)
  else
    match ofFlag? l t with
    | some o => .ok (.option t o t none)
    | none =>
      if t.length = 1 then .ok (.plain t)
      else
        match cutAtEquals? t with
        | some (left, right) =>
          match ofFlag? l left with
          | some o => .ok (.option t o left (some ⟨right, true⟩))
          | none => guess
        | none => guess
where
  /-- How a text is read that has no exact flag. -/
  guess : Except Text Argument :=
    match candidates l t with
    | [a] => .ok a
    | [] =>
      if isNegativeNumber t || t.contains ' ' then .ok (.plain t) else .ok (.unknown t)
    | found => .error (ambiguity t found)

/-- How the arguments of a level are read, or the first complaint. -/
def readAll (l : CommandLevel) : List Text → Except Text (List Argument)
  | [] => .ok []
  | t :: ts =>
    if t = separatorText then .ok (.separator :: ts.map .plain)
    else
      match read l t with
      | .error complaint => .error complaint
      | .ok a =>
        match readAll l ts with
        | .error complaint => .error complaint
        | .ok as => .ok (a :: as)

end Argument

end DottedNames.Command
