import IpsecTransform.Fault
import IpsecTransform.Bytes
import IpsecTransform.Text

/-!
Byte strings as hexadecimal text. Writing gives two lower-case digits a byte.
Reading takes either case and one mark `0x` in front; an odd number of units is
reported before any unit is looked at.
-/

namespace IpsecTransform.Hex

def digit (value : UInt8) : UInt16 :=
  if value < 10 then 0x30 + value.toUInt16 else 0x57 + value.toUInt16

/-- Two lower-case digits a byte. -/
def encode (bytes : Bytes) : Text :=
  bytes.flatMap fun byte => [digit (byte / 16), digit (byte % 16)]

/-- The number that a digit of either case stands for. -/
def value? (unit : UInt16) : Option UInt8 :=
  if 0x30 ≤ unit && unit ≤ 0x39 then some (unit - 0x30).toUInt8
  else if 0x61 ≤ unit && unit ≤ 0x66 then some (unit - 0x57).toUInt8
  else if 0x41 ≤ unit && unit ≤ 0x46 then some (unit - 0x37).toUInt8
  else none

/-- The units `0x` that may stand in front; `0X` is no mark. -/
def mark : Text := [0x30, 0x78]

def unmarked (text : Text) : Text :=
  if text.take mark.length = mark then text.drop mark.length else text

/-- One byte for each pair of digits. -/
def pairs : Text → Except Fault Bytes
  | [] => .ok []
  | [_] => .error .oddHexLength
  | high :: low :: rest =>
      match value? high, value? low with
      | some high, some low => (pairs rest).map ((16 * high + low) :: ·)
      | _, _ => .error .nonHexDigit

def decode (text : Text) : Except Fault Bytes :=
  let digits := unmarked text
  if digits.length % 2 = 0 then pairs digits else .error .oddHexLength

end IpsecTransform.Hex
