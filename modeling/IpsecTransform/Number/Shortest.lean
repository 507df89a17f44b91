import IpsecTransform.Number.Nearest

/-!
Numbers as decimal text: the fewest digits that read back as the number, the
nearest of those, positional from `10 ^ (-6)` up to `10 ^ 21` and with an
exponent outside.
-/

namespace IpsecTransform.Number

def digitCount (value : Nat) : Nat := (Nat.toDigits 10 value).length

/-- The numbers that round to one number of the format. -/
structure Neighbourhood where
  low : Rat
  high : Rat
  /-- The ends belong to it. -/
  closed : Bool

/-- What rounds to a positive number of the format: half a step either way, and
half of the smaller step below a power of two. -/
def neighbourhood (value : Rat) : Neighbourhood :=
  let exponent := stepExponent value
  let step : Rat := 2 ^ exponent
  let below :=
    if value = 2 ^ binaryExponent value ∧ leastExponent < exponent then step / 2 else step
  { low := value - below / 2
    high := value + step / 2
    closed := (value / step).num % 2 = 0 }

def Neighbourhood.holds (range : Neighbourhood) (value : Rat) : Bool :=
  if range.closed then range.low ≤ value ∧ value ≤ range.high
  else range.low < value ∧ value < range.high

/-- A positive number `coefficient * 10 ^ exponent`. -/
structure Decimal where
  coefficient : Nat
  exponent : Int
deriving DecidableEq, Repr

/-- How many digits stand before the point of a positive number; negative when
zeros follow the point. -/
def pointPosition (value : Rat) : Int :=
  if 1 ≤ value then digitCount value.floor.toNat
  else 1 - digitCount ((1 / value).ceil.toNat - 1)

/-- The decimal with `count` digits that reads back as the number: the nearest
one, or else a neighbour on the same grid. -/
def decimal? (value : Rat) (count : Nat) : Option Decimal :=
  let exponent := pointPosition value - count
  let unit : Rat := 10 ^ exponent
  let scaled := value / unit
  let grid : List Int := [nearestInteger scaled, scaled.floor, scaled.floor + 1]
  (grid.find? fun point : Int => (neighbourhood value).holds (point * unit)).map fun point =>
    { coefficient := point.toNat, exponent }

/-- The decimal with the fewest digits; seventeen tell all numbers of the format
apart. -/
def shortest (value : Rat) : Decimal :=
  ((List.range 17).findSome? fun count => decimal? value (count + 1)).getD
    { coefficient := (nearestInteger (value / 10 ^ (pointPosition value - 17))).toNat
      exponent := pointPosition value - 17 }

/-- Digits without the zeros at the end. -/
def significantDigits (coefficient : Nat) : List Char :=
  ((Nat.toDigits 10 coefficient).reverse.dropWhile (· == '0')).reverse

/-- The text of digits whose point stands after the first `position` of them. -/
def layOut (digits : List Char) (position : Int) : List Char :=
  let count : Int := digits.length
  if count ≤ position ∧ position ≤ 21 then
    digits ++ List.replicate (position - count).toNat '0'
  else if 0 < position ∧ position ≤ 21 then
    digits.take position.toNat ++ '.' :: digits.drop position.toNat
  else if -6 < position ∧ position ≤ 0 then
    '0' :: '.' :: (List.replicate (-position).toNat '0' ++ digits)
  else
    let exponent := position - 1
    let fraction := if count = 1 then [] else '.' :: digits.drop 1
    digits.take 1 ++ fraction ++ 'e' :: (if exponent < 0 then '-' else '+') ::
      Nat.toDigits 10 exponent.natAbs

def magnitudeText (value : Rat) : List Char :=
  let decimal := shortest value
  layOut (significantDigits decimal.coefficient)
    (digitCount decimal.coefficient + decimal.exponent)

def withSign (negative : Bool) (text : List Char) : List Char :=
  if negative then '-' :: text else text

def integerText (value : Int) : List Char :=
  withSign (value < 0) (Nat.toDigits 10 value.natAbs)

/-- The bound `2 ^ 53`, below which every integer is a number of the format. -/
def exactBound : Nat := 0x20000000000000

def finiteText (value : Dyadic) : List Char :=
  if isWhole value ∧ (wholePart value).natAbs < exactBound then integerText (wholePart value)
  else withSign (value < 0) (magnitudeText value.toRat.abs)

/-- The text of a number; a zero is written without its sign. -/
def text : Number → String
  | nan => "NaN"
  | infinity negative => String.ofList (withSign negative "Infinity".toList)
  | negativeZero => "0"
  | finite value => String.ofList (finiteText value)

end IpsecTransform.Number
