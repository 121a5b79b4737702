import DottedNames.Datum
import DottedNames.Designator

/-!
# Faults

Why an operation on names is refused. Every fault is a cause with the data that its message shows;
the wording is in `Fault.message` and nowhere else.
-/

namespace DottedNames

/-- What a text is read as. -/
inductive Reading where
  /-- As one segment. -/
  | segment
  /-- As a dotted name. -/
  | name
deriving DecidableEq

/-- The kind of value that a reading results in. -/
def Reading.result : Reading → Kind
  | .segment => .segment
  | .name => .name

/-- Why an operation is refused. -/
inductive Fault where
  /-- A text spells no segment. -/
  | invalidIdentifier (report : InvalidIdentifier)
  /-- A value that should be read is no text. -/
  | textExpected (reading : Reading) (got : Kind)
  /-- A value that should become a segment of a name is no segment. -/
  | segmentExpected (got : Kind)
  /-- A name was asked for that has no segments. -/
  | noSegments
  /-- Two values are not ordered. -/
  | unordered (relation : OrderRelation) (left right : Kind)
  /-- A value has no hash. -/
  | unhashable (got : Kind)
  /-- A value that should be matched is no text. -/
  | notMatchable (got : Kind)
  /-- A value that should be a position is no integer. -/
  | notAnIndex (got : Kind)
  /-- A position does not fit into 64 bits. -/
  | indexTooLarge
  /-- A value has no parts to go through. -/
  | notIterable (got : Kind)
  /-- A value has no parts to search. -/
  | notSearchable (got : Kind)
  /-- Something that is no text was searched in a text. -/
  | textSought (got : Kind)
  /-- A value has no length. -/
  | noLength (got : Kind)
  /-- A record has no field under a number. -/
  | noNumberedField (number : Nat)
  /-- A value does not have what an operation needs of it. -/
  | noAttribute (got : Kind) (feature : Text)
  /-- A text is not the name of a log mode. -/
  | invalidLogMode (text : Text)
  /-- A register was read before it was written. -/
  | unknownRegister (register : Text)

namespace Fault

/-- A kind between single quotes. -/
def quotedKind (k : Kind) : Text := Text.singleQuote :: (k.word ++ [Text.singleQuote])

/-- The message of a fault. -/
def message : Fault → Text
  | .invalidIdentifier e => e.message
  | .textExpected reading got =>
    reading.result.word ++ " expects str, got ".toList ++ got.word
  | .segmentExpected got => "Fqn segments must be Name, got ".toList ++ got.word
  | .noSegments => "Fqn requires at least one name".toList
  | .unordered r left right =>
    Text.singleQuote :: r.sign ++ "' not supported between instances of ".toList ++
      quotedKind left ++ " and ".toList ++ quotedKind right
  | .unhashable got => "unhashable type: ".toList ++ quotedKind got
  | .notMatchable got => "expected string or bytes-like object, got ".toList ++ quotedKind got
  | .notAnIndex got => quotedKind got ++ " object cannot be interpreted as an integer".toList
  | .indexTooLarge => "Python int too large to convert to C ssize_t".toList
  | .notIterable got => quotedKind got ++ " object is not iterable".toList
  | .notSearchable got => "argument of type ".toList ++ quotedKind got ++ " is not iterable".toList
  | .textSought got => "'in <string>' requires string as left operand, not ".toList ++ got.word
  | .noLength got => "object of type ".toList ++ quotedKind got ++ " has no len()".toList
  | .noNumberedField number => Text.ofNat number
  | .noAttribute got feature =>
    quotedKind got ++ " object has no attribute ".toList ++
      Text.singleQuote :: (feature ++ [Text.singleQuote])
  | .invalidLogMode text =>
    "Invalid log mode '".toList ++ text ++ "'. Expected one of: warning, info, debug".toList
  | .unknownRegister register => register.quoted

end Fault

end DottedNames
