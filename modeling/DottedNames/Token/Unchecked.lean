import DottedNames.Operand
import DottedNames.Token

/-!
# Unchecked tokens

A token is made of three data, and nothing is checked when it is made. It can be shown and compared
as it is; whether its text spells a name is found out when the name is asked for.
-/

namespace DottedNames

/-- The parts of a token, whatever they are. -/
structure UncheckedToken where
  /-- What should be the characters. -/
  text : Datum
  /-- What should be the position of the first character. -/
  start : Datum
  /-- What should be the position behind the last character. -/
  stop : Datum

namespace UncheckedToken

/-- The parts of a token. -/
def ofToken (t : Token) : UncheckedToken := ⟨.text t.text, .int t.start, .int t.stop⟩

/-- The displayed form. -/
def display (t : UncheckedToken) : Text :=
  "FqnToken(text=".toList ++ t.text.literal ++ ", start=".toList ++ t.start.literal ++
    ", end=".toList ++ t.stop.literal ++ ")".toList

/-- The qualified name that the token spells. -/
def toQualName (t : UncheckedToken) : Except Fault QualName := (Operand.datum t.text).readName

/-- Whether two tokens have equal parts. -/
def same (t u : UncheckedToken) : Bool :=
  t.text.same u.text && t.start.same u.start && t.stop.same u.stop

/-- A token is shown as its parts are. -/
theorem display_ofToken (t : Token) : (ofToken t).display = t.display := rfl

end UncheckedToken

end DottedNames
