import DottedNames.Text.Quoted

/-!
# UTF-8

Reading bytes as UTF-8 is strict. A leading byte tells how many continuation bytes follow and which
range the first of them has; that range leaves out the overlong forms, the surrogates and everything
above U+10FFFF. The first defect ends the reading, and the report says which bytes are at fault: the
leading byte together with the continuation bytes that were still good.
-/

namespace DottedNames.Utf8

/-- What is wrong with a byte sequence. -/
inductive Defect where
  /-- The byte cannot start a character. -/
  | invalidStart
  /-- A continuation byte is missing or out of its range. -/
  | invalidContinuation
  /-- The bytes end within a character. -/
  | unexpectedEnd
deriving DecidableEq

/-- The words for a defect. -/
def Defect.message : Defect → Text
  | .invalidStart => "invalid start byte".toList
  | .invalidContinuation => "invalid continuation byte".toList
  | .unexpectedEnd => "unexpected end of data".toList

/-- The first defect of a byte sequence. -/
structure DecodeError where
  /-- The first byte at fault. -/
  byte : UInt8
  /-- Its position. -/
  start : Nat
  /-- How many bytes at fault follow it. -/
  more : Nat
  /-- What is wrong. -/
  defect : Defect
deriving DecidableEq

/-- The message of a defect. -/
def DecodeError.message (e : DecodeError) : Text :=
  let place :=
    if e.more = 0 then
      "byte 0x".toList ++ Text.hexDigits 2 e.byte.toNat ++ " in position ".toList ++
        Text.ofNat e.start
    else
      "bytes in position ".toList ++ Text.ofNat e.start ++ '-' :: Text.ofNat (e.start + e.more)
  "'utf-8' codec can't decode ".toList ++ place ++ ": ".toList ++ e.defect.message

/-- What a leading byte announces. -/
structure Lead where
  /-- The bits that it contributes. -/
  bits : Nat
  /-- The number of continuation bytes. -/
  continuations : Nat
  /-- The least first continuation byte. -/
  least : Nat := 0x80
  /-- The greatest first continuation byte. -/
  greatest : Nat := 0xBF

/-- What a byte from 0x80 on announces as a leading byte, if it can be one. -/
def lead? (b : Nat) : Option Lead :=
  if b < 0xC2 then none
  else if b < 0xE0 then some { bits := b - 0xC0, continuations := 1 }
  else if b = 0xE0 then some { bits := 0, continuations := 2, least := 0xA0 }
  else if b = 0xED then some { bits := 0xD, continuations := 2, greatest := 0x9F }
  else if b < 0xF0 then some { bits := b - 0xE0, continuations := 2 }
  else if b = 0xF0 then some { bits := 0, continuations := 3, least := 0x90 }
  else if b < 0xF4 then some { bits := b - 0xF0, continuations := 3 }
  else if b = 0xF4 then some { bits := 4, continuations := 3, greatest := 0x8F }
  else none

/-- The code point after `count` continuation bytes, of which the first lies between `least` and
`greatest`; otherwise the defect and the number of good continuation bytes. -/
def continued (bits : Nat) : (count good least greatest : Nat) → List UInt8 →
    Except (Defect × Nat) Nat
  | 0, _, _, _, _ => .ok bits
  | _ + 1, good, _, _, [] => .error (.unexpectedEnd, good)
  | count + 1, good, least, greatest, b :: bytes =>
    if least ≤ b.toNat ∧ b.toNat ≤ greatest then
      continued (bits * 0x40 + b.toNat % 0x40) count (good + 1) 0x80 0xBF bytes
    else .error (.invalidContinuation, good)

/-- The text of the bytes from a position on. -/
def decodeFrom (position : Nat) : List UInt8 → Except DecodeError Text
  | [] => .ok []
  | b :: bytes =>
    if b.toNat < 0x80 then
      match decodeFrom (position + 1) bytes with
      | .ok t => .ok (Char.ofNat b.toNat :: t)
      | .error e => .error e
    else
      match lead? b.toNat with
      | none => .error ⟨b, position, 0, .invalidStart⟩
      | some l =>
        match continued l.bits l.continuations 0 l.least l.greatest bytes with
        | .error (defect, good) => .error ⟨b, position, good, defect⟩
        | .ok codePoint =>
          match decodeFrom (position + 1 + l.continuations) (bytes.drop l.continuations) with
          | .ok t => .ok (Char.ofNat codePoint :: t)
          | .error e => .error e
termination_by bytes => bytes.length
decreasing_by all_goals (simp only [List.length_drop, List.length_cons]; omega)

/-- The text of a byte sequence. -/
def decode (bytes : List UInt8) : Except DecodeError Text := decodeFrom 0 bytes

/-- The bytes of a text. -/
def encode (t : Text) : List UInt8 := t.flatMap String.utf8EncodeChar

end DottedNames.Utf8
