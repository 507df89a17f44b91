import IpsecTransform.Text

namespace IpsecTransform.Text

/-- White space and line ends, the byte order mark included. -/
def isBlank (unit : UInt16) : Bool :=
  (0x0009 ≤ unit && unit ≤ 0x000D) || unit == 0x0020 || unit == 0x00A0 || unit == 0x1680 ||
    (0x2000 ≤ unit && unit ≤ 0x200A) || unit == 0x2028 || unit == 0x2029 ||
    unit == 0x202F || unit == 0x205F || unit == 0x3000 || unit == 0xFEFF

def trimStart (text : Text) : Text := text.dropWhile isBlank

/-- The text without the blanks at either end; blanks inside stay. -/
def trim (text : Text) : Text := (trimStart (trimStart text).reverse).reverse

/-- A letter from `A` to `Z` lowered, any other unit itself. -/
def lowerUnit (unit : UInt16) : UInt16 :=
  if 0x41 ≤ unit && unit ≤ 0x5A then unit + 0x20 else unit

def lower (text : Text) : Text := text.map lowerUnit

end IpsecTransform.Text
