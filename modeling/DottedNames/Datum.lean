import DottedNames.Datum.BinaryNumber
import DottedNames.Text.Quoted

/-!
# Data of any kind

An operation on names may be handed something that is no name at all: a number, a list, nothing. A
datum is such a value, and its kind is what an error message calls it. Truth values count as the
numbers one and zero where data are compared.
-/

namespace DottedNames

/-- A value that is neither a segment nor a qualified name. -/
inductive Datum where
  /-- The absent value. -/
  | null
  /-- A truth value. -/
  | bool (b : Bool)
  /-- An integer. -/
  | int (i : Int)
  /-- A number written with a point or an exponent. -/
  | real (x : BinaryNumber)
  /-- A text. -/
  | text (t : Text)
  /-- A list of data. -/
  | list (items : List Datum)
  /-- A record, as its fields in order. -/
  | record (fields : List (Text × Datum))
deriving Inhabited

/-- What a value is, as far as error messages tell. -/
inductive Kind where
  /-- The absent value. -/
  | null
  /-- A truth value. -/
  | bool
  /-- An integer. -/
  | int
  /-- A number written with a point or an exponent. -/
  | real
  /-- A text. -/
  | text
  /-- A list. -/
  | list
  /-- A list that cannot change. -/
  | tuple
  /-- A record. -/
  | record
  /-- A segment. -/
  | segment
  /-- A qualified name. -/
  | name
deriving DecidableEq

/-- The word for a kind in an error message. -/
def Kind.word : Kind → Text
  | .null => "NoneType".toList
  | .bool => "bool".toList
  | .int => "int".toList
  | .real => "float".toList
  | .text => "str".toList
  | .list => "list".toList
  | .tuple => "tuple".toList
  | .record => "dict".toList
  | .segment => "Name".toList
  | .name => "Fqn".toList

namespace Datum

/-- The kind of a datum. -/
def kind : Datum → Kind
  | .null => .null
  | .bool _ => .bool
  | .int _ => .int
  | .real _ => .real
  | .text _ => .text
  | .list _ => .list
  | .record _ => .record

/-- The value in the units of binary numbers, where it is a number. -/
def units? : Datum → Option Int
  | .bool b => some (b.toInt * BinaryNumber.unitsOfOne)
  | .int i => some (i * BinaryNumber.unitsOfOne)
  | .real x => some x.scaled
  | _ => none

/-- Whether the value counts as true: it is neither absent, nor zero, nor empty. -/
def truthy : Datum → Bool
  | .null => false
  | .bool b => b
  | .int i => i != 0
  | .real x => x.units != 0
  | .text t => !t.isEmpty
  | .list items => !items.isEmpty
  | .record fields => !fields.isEmpty

mutual

/-- Equality of data: numbers by value, lists item by item, records field by field in any order. -/
def same : Datum → Datum → Bool
  | .list xs, .list ys => sameItems xs ys
  | .record fs, .record gs => fs.length == gs.length && sameFields fs gs
  | .text s, .text t => s == t
  | .null, .null => true
  | x, y =>
    match x.units?, y.units? with
    | some m, some n => m == n
    | _, _ => false

/-- Equality of lists, item by item. -/
def sameItems : List Datum → List Datum → Bool
  | [], [] => true
  | x :: xs, y :: ys => same x y && sameItems xs ys
  | _, _ => false

/-- Whether each field of the first list has an equal field of the same key in the second. -/
def sameFields : List (Text × Datum) → List (Text × Datum) → Bool
  | [], _ => true
  | (key, x) :: fs, gs =>
    (gs.any fun (key', y) => key == key' && same x y) && sameFields fs gs

end

mutual

/-- The written form of a datum in which every text is quoted. -/
def literal : Datum → Text
  | .null => "None".toList
  | .bool b => if b then "True".toList else "False".toList
  | .int i => Text.ofInt i
  | .real x => x.text
  | .text t => t.quoted
  | .list items => '[' :: (Text.join ", ".toList (literalItems items) ++ [']'])
  | .record fields => '\x7b' :: (Text.join ", ".toList (literalFields fields) ++ ['\x7d'])

/-- The written forms of the items of a list. -/
def literalItems : List Datum → List Text
  | [] => []
  | x :: xs => literal x :: literalItems xs

/-- The written forms of the fields of a record. -/
def literalFields : List (Text × Datum) → List Text
  | [] => []
  | (key, x) :: fs => (key.quoted ++ ": ".toList ++ literal x) :: literalFields fs

end

/-- The datum as it is inserted into a text: a text as it stands, anything else as its literal. -/
def inserted : Datum → Text
  | .text t => t
  | d => d.literal

/-- The value of the first field with a given key. -/
def field? (fields : List (Text × Datum)) (key : Text) : Option Datum :=
  (fields.find? fun f => f.1 == key).map Prod.snd

end Datum

end DottedNames
