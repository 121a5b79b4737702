import DottedNames.Datum.Order
import DottedNames.Grammar
import DottedNames.Location
import DottedNames.Text.Alphanumeric

/-!
# Tokens in running text

Scanning a text yields the dotted names in it from left to right, each with its span. A token starts
only where the character before is neither a word character nor a dot, and ends only where the
character behind is no word character; word characters are those of every alphabet. So `1abc`,
`x.1y` and `café` yield nothing for `abc`, `y` and `caf`. Behind a token the scan goes on at its
end.
-/

namespace DottedNames

/-- A dotted name found in a text, with its span (`FqnToken`). -/
structure Token where
  /-- The characters of the token. -/
  text : Text
  /-- The position of its first character. -/
  start : Int
  /-- The position behind its last character. -/
  stop : Int
deriving DecidableEq

namespace Token

/-- The qualified name that the token spells (`FqnToken.fqn`). -/
def toQualName (t : Token) : Except InvalidIdentifier QualName := QualName.parse t.text

/-- The displayed form of a token. -/
def display (t : Token) : Text :=
  "FqnToken(text=".toList ++ t.text.quoted ++ ", start=".toList ++ Text.ofInt t.start ++
    ", end=".toList ++ Text.ofInt t.stop ++ ")".toList

/-- Whether a token can start with the character `c` behind the character `before`
(`_can_start_at`). -/
def startsAt (before : Option Char) (c : Char) : Bool :=
  (c.isAlpha || c == '_') && before.all fun b => !Text.isWordChar b && b != '.'

/-- Whether the word of a token runs on behind its end (`_runs_on`). -/
def runsOn (c : Cursor) : Bool := c.ahead.head?.any Text.isWordChar

/-- The token that starts at a cursor, with the cursor behind it. -/
def at? (c : Cursor) : Option (Token × Cursor) :=
  match c.ahead with
  | [] => none
  | d :: _ =>
    if startsAt c.before d then
      match Grammar.dottedName.matchEnd? c with
      | some e =>
        if runsOn e then none
        else some (⟨c.ahead.take (e.position - c.position), c.position, e.position⟩, e)
      | none => none
    else none

/-- The tokens that start at position `free` or further on, each behind the one before it. -/
def scanFrom (free position : Nat) (before : Option Char) : Text → List Token
  | [] => []
  | c :: ahead =>
    if position < free then scanFrom free (position + 1) (some c) ahead
    else
      match at? ⟨position, before, c :: ahead⟩ with
      | some (t, e) => t :: scanFrom e.position (position + 1) (some c) ahead
      | none => scanFrom free (position + 1) (some c) ahead

/-- The tokens of a text, from left to right (`iter_fqn_tokens`). -/
def scan (t : Text) : List Token := scanFrom 0 0 none t

end Token

/-! ## Scanning data

A list can be scanned like a text as long as no item could start a token: a token that starts has to
be matched, and only a text can be.
-/

namespace Datum

/-- Whether a datum continues a word: a word character, or a text of letters and numbers
(`_continues_word`). -/
def continuesWord : Datum → Except Fault Bool
  | .text [c] => .ok (Text.isWordChar c)
  | .text t => .ok (!t.isEmpty && t.all Text.isAlphanumeric)
  | d => .error (.noAttribute d.kind "isalnum".toList)

/-- Whether a token starts with the item `x` behind the item `before`. -/
def startsToken (before : Option Datum) (x : Datum) : Except Fault Bool := do
  let _ ← x.hashKey
  match x with
  | .text [c] =>
    if c.isAlpha || c == '_' then
      match before with
      | none => return true
      | some (.text ['.']) => return false
      | some d => return !(← d.continuesWord)
    else return false
  | _ => return false

/-- Scanning the items of a list behind the item `before`. -/
def scanItems (before : Option Datum) : List Datum → Except Fault Unit
  | [] => .ok ()
  | x :: xs => do
    if ← startsToken before x then throw (.notMatchable .list)
    scanItems (some x) xs

/-- What an item of a list counts as where lines are counted: a line feed, or nothing special. -/
def lineCharacter : Datum → Char
  | .text ['\n'] => '\n'
  | _ => ' '

/-- The line starts of a datum, in which every item or key counts as one character. -/
def lineStarts : Datum → Except Fault (List Nat)
  | .text t => .ok (Location.lineStarts t)
  | .list items => .ok (Location.lineStarts (items.map lineCharacter))
  | .record fields => .ok (Location.lineStarts (fields.map fun f => lineCharacter (.text f.1)))
  | d => .error (.notIterable d.kind)

/-- The tokens of a datum: of a text, or of something that has a length and no token. -/
def tokens : Datum → Except Fault (List Token)
  | .text t => .ok (Token.scan t)
  | .list items => (scanItems none items).map fun _ => []
  | .record [] => .ok []
  | .record _ => .error (.noNumberedField 0)
  | d => .error (.noLength d.kind)

end Datum

/-- The names that the tokens of a list spell, as `find_fqns` gives them. -/
def namesOfTokens (tokens : List Token) : Except Fault (List QualName) :=
  tokens.mapM fun t => t.toQualName.mapError .invalidIdentifier

end DottedNames
