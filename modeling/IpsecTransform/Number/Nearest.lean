import IpsecTransform.Number

/-!
Rounding to the binary64 format: fifty-three significant bits, a smallest step of
`2 ^ (-1074)`, and nothing finite from `2 ^ 1024` on.
-/

namespace IpsecTransform.Number

/-- The nearest integer; a half goes to the even neighbour. -/
def nearestInteger (value : Rat) : Int :=
  let lower := value.floor
  let rest := value - lower
  if rest < 1 / 2 then lower
  else if 1 / 2 < rest then lower + 1
  else lower + lower % 2

/-- The exponent of the power of two at or below a positive number. -/
def binaryExponent (value : Rat) : Int :=
  let estimate : Int := value.num.natAbs.log2 - value.den.log2
  if value < 2 ^ estimate then estimate - 1 else estimate

/-- The exponent of the smallest step of the format. -/
def leastExponent : Int := -1074

/-- The exponent of the step between the numbers of the format near a positive one. -/
def stepExponent (value : Rat) : Int :=
  max (binaryExponent value - 52) leastExponent

def zero (negative : Bool) : Number :=
  if negative then negativeZero else finite 0

/-- The number of the format nearest to a magnitude with a sign. -/
def nearest (negative : Bool) (magnitude : Rat) : Number :=
  let exponent := stepExponent magnitude
  let significand := nearestInteger (magnitude / 2 ^ exponent)
  if magnitude = 0 ∨ significand = 0 then zero negative
  else if 2 ^ (1024 : Int) ≤ (significand : Rat) * 2 ^ exponent then infinity negative
  else
    finite (Dyadic.ofIntWithPrec (if negative then -significand else significand) (-exponent))

end IpsecTransform.Number
