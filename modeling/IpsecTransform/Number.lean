/-!
Numbers as callers may give them for a length: binary fractions of any size, two
zeros of different sign, two infinities, and a value that is no number. Arithmetic
on them is exact; the numbers of the binary64 format are among them.
-/

namespace IpsecTransform

/-- A number, or one of the values that stand beside the numbers. -/
inductive Number where
  /-- The value that is no number and differs from every value, itself included. -/
  | nan
  | infinity (negative : Bool)
  /-- A zero that carries a sign and is otherwise equal to zero. -/
  | negativeZero
  | finite (value : Dyadic)
deriving DecidableEq

namespace Number

def ofInt (value : Int) : Number := finite (Dyadic.ofInt value)

/-- The integer left when the fraction is cut off. -/
def wholePart : Dyadic → Int
  | .zero => 0
  | .ofOdd odd scale _ =>
      if scale ≤ 0 then odd * Int.pow 2 (-scale).toNat else odd.tdiv (Int.pow 2 scale.toNat)

def isWhole : Dyadic → Bool
  | .zero => true
  | .ofOdd _ scale _ => scale ≤ 0

/-- The integer that a number is equal to, if it is one. -/
def integer? : Number → Option Int
  | negativeZero => some 0
  | finite value => if isWhole value then some (wholePart value) else none
  | _ => none

/-- The number without the sign of a zero. -/
def unsignedZero : Number → Number
  | negativeZero => finite 0
  | number => number

/-- Numeric equality: both zeros are equal, and `nan` equals nothing. -/
def equals (left right : Number) : Bool :=
  left != nan && left.unsignedZero == right.unsignedZero

/-- The number as a signed word of 32 bits: the fraction is cut off, the rest is
taken modulo `2 ^ 32`, and what is not finite counts as zero. -/
def signedWord : Number → Int
  | finite value => (wholePart value).bmod 0x100000000
  | _ => 0

end Number

end IpsecTransform
