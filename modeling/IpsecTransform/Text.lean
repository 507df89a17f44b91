/-!
Text as a sequence of 16-bit units. A scalar value above `0xFFFF` takes two
units, a high surrogate followed by a low one; a surrogate outside such a pair
is lone and stands for no scalar value.
-/

namespace IpsecTransform

/-- A sequence of 16-bit units, lone surrogates included. -/
abbrev Text := List UInt16

namespace Text

/-- The first unit of a surrogate pair. -/
def isHigh (unit : UInt16) : Bool := 0xD800 ≤ unit && unit < 0xDC00

/-- The second unit of a surrogate pair. -/
def isLow (unit : UInt16) : Bool := 0xDC00 ≤ unit && unit < 0xE000

/-- A unit that stands for no scalar value by itself. -/
def isSurrogate (unit : UInt16) : Bool := isHigh unit || isLow unit

/-- The unit that takes the place of a lone surrogate. -/
def replacement : UInt16 := 0xFFFD

/-- The units of one scalar value. -/
def units (scalar : Char) : Text :=
  let value := scalar.toNat
  if value < 0x10000 then [UInt16.ofNat value]
  else
    [UInt16.ofNat (0xD800 + (value - 0x10000) / 0x400),
      UInt16.ofNat (0xDC00 + (value - 0x10000) % 0x400)]

def ofScalars (scalars : List Char) : Text := scalars.flatMap units

def ofString (string : String) : Text := ofScalars string.toList

/-- The scalar value of a unit outside a surrogate pair. -/
def single (unit : UInt16) : Char :=
  if isSurrogate unit then Char.ofNat replacement.toNat else Char.ofNat unit.toNat

/-- The scalar value of a surrogate pair. -/
def paired (high low : UInt16) : Char :=
  Char.ofNat (0x10000 + (high.toNat - 0xD800) * 0x400 + (low.toNat - 0xDC00))

/-- The scalar values that a text spells, a replacement for each lone surrogate. -/
def scalars : Text → List Char
  | [] => []
  | [unit] => [single unit]
  | first :: second :: rest =>
      if isHigh first && isLow second then paired first second :: scalars rest
      else single first :: scalars (second :: rest)

/-- A text without lone surrogates. -/
def isWellFormed : Text → Bool
  | [] => true
  | [unit] => !isSurrogate unit
  | first :: second :: rest =>
      if isHigh first && isLow second then isWellFormed rest
      else !isSurrogate first && isWellFormed (second :: rest)

/-- The replacement for a lone surrogate, and every other unit itself. -/
def repairedUnit (unit : UInt16) : UInt16 :=
  if isSurrogate unit then replacement else unit

/-- The text with each lone surrogate replaced; the other units stay as they are. -/
def repaired : Text → Text
  | [] => []
  | [unit] => [repairedUnit unit]
  | first :: second :: rest =>
      if isHigh first && isLow second then first :: second :: repaired rest
      else repairedUnit first :: repaired (second :: rest)

protected def toString (text : Text) : String := String.ofList text.scalars

/-- The unit that marks byte order at the start of an encoded text. -/
def byteOrderMark : UInt16 := 0xFEFF

/-- The text without one byte order mark in front, if it has one. -/
def withoutMark : Text → Text
  | [] => []
  | first :: rest => if first = byteOrderMark then rest else first :: rest

end Text

end IpsecTransform
