import IpsecTransform.Bytes
import IpsecTransform.Text

/-!
UTF-8. Writing takes every text; reading is strict, so that each sequence of
scalar values is read from one byte string only.
-/

namespace IpsecTransform.Utf8

/-- A byte after the first of a sequence, with `payload` as its low six bits. -/
def trail (payload : Nat) : UInt8 := UInt8.ofNat (0x80 + payload % 0x40)

/-- The one to four bytes of a scalar value, as few as its size allows. -/
def encodeScalar (scalar : Char) : Bytes :=
  let value := scalar.toNat
  if value < 0x80 then [UInt8.ofNat value]
  else if value < 0x800 then [UInt8.ofNat (0xC0 + value / 0x40), trail value]
  else if value < 0x10000 then
    [UInt8.ofNat (0xE0 + value / 0x1000), trail (value / 0x40), trail value]
  else
    [UInt8.ofNat (0xF0 + value / 0x40000), trail (value / 0x1000),
      trail (value / 0x40), trail value]

def encodeScalars (scalars : List Char) : Bytes := scalars.flatMap encodeScalar

/-- The bytes of a text; a lone surrogate is written as its replacement. -/
def encode (text : Text) : Bytes := encodeScalars text.scalars

/-- A byte that continues a sequence. -/
def isTrail (byte : UInt8) : Bool := 0x80 ≤ byte && byte < 0xC0

/-- The number spelled by the payload of a first byte and by the bytes that
continue it. -/
def assemble (lead : Nat) (trails : Bytes) : Nat :=
  trails.foldl (fun value byte => value * 0x40 + byte.toNat % 0x40) lead

/-- The scalar value of a sequence of several bytes. It is refused when a byte
does not continue the sequence, when the number is below `least` and so has a
shorter form, and when the number is a surrogate or too large. -/
def scalar? (least lead : Nat) (trails : Bytes) : Option Char :=
  let value := assemble lead trails
  if trails.all isTrail ∧ least ≤ value ∧ value.isValidChar then some (Char.ofNat value)
  else none

/-- The scalar values that a byte string spells, if it is valid throughout. -/
def decodeScalars? : Bytes → Option (List Char)
  | [] => some []
  | lead :: rest =>
      if lead < 0x80 then
        (decodeScalars? rest).map (Char.ofNat lead.toNat :: ·)
      else if lead < 0xC0 then none
      else if lead < 0xE0 then
        match rest with
        | second :: rest =>
            (scalar? 0x80 (lead.toNat - 0xC0) [second]).bind fun scalar =>
              (decodeScalars? rest).map (scalar :: ·)
        | _ => none
      else if lead < 0xF0 then
        match rest with
        | second :: third :: rest =>
            (scalar? 0x800 (lead.toNat - 0xE0) [second, third]).bind fun scalar =>
              (decodeScalars? rest).map (scalar :: ·)
        | _ => none
      else if lead < 0xF8 then
        match rest with
        | second :: third :: fourth :: rest =>
            (scalar? 0x10000 (lead.toNat - 0xF0) [second, third, fourth]).bind fun scalar =>
              (decodeScalars? rest).map (scalar :: ·)
        | _ => none
      else none

/-- The text that a byte string spells, if it is valid throughout. One byte
order mark in front belongs to the encoding and is left out of the text. -/
def decode? (bytes : Bytes) : Option Text :=
  (decodeScalars? bytes).map fun scalars => (Text.ofScalars scalars).withoutMark

end IpsecTransform.Utf8
