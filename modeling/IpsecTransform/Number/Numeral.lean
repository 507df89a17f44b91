import IpsecTransform.Number.Shortest
import IpsecTransform.Text.Blank

/-!
Numerals: the texts by which callers give a number. A numeral is decimal, with
an optional point and exponent, or an integer in base two, eight or sixteen;
blanks around it do not count. Its value is rounded to the binary64 format.
-/

namespace IpsecTransform

/-- A decimal numeral, `coefficient * 10 ^ exponent` with a sign. -/
structure Numeral where
  negative : Bool
  coefficient : Nat
  exponent : Int
deriving DecidableEq, Repr

namespace Numeral

/-- The number nearest to a numeral. Magnitudes outside the range of the format
are told from the count of their digits, so no large power of ten is formed. -/
def value (numeral : Numeral) : Number :=
  let position := Number.digitCount numeral.coefficient + numeral.exponent
  if numeral.coefficient = 0 ∨ position < -400 then Number.zero numeral.negative
  else if 400 < position then .infinity numeral.negative
  else Number.nearest numeral.negative (numeral.coefficient * 10 ^ numeral.exponent)

def digitValue (digit : Char) : Nat :=
  if digit.isDigit then digit.toNat - '0'.toNat
  else if 'a' ≤ digit ∧ digit ≤ 'z' then digit.toNat - 'a'.toNat + 10
  else if 'A' ≤ digit ∧ digit ≤ 'Z' then digit.toNat - 'A'.toNat + 10
  else 36

/-- The integer that digits spell in a base. -/
def ofDigits (base : Nat) (digits : List Char) : Nat :=
  digits.foldl (fun value digit => value * base + digitValue digit) 0

/-- A nonempty row of digits of a base, and nothing else. -/
def digits? (base : Nat) (chars : List Char) : Option Nat :=
  if chars ≠ [] ∧ chars.all (digitValue · < base) then some (ofDigits base chars) else none

/-- A sign in front, if there is one, and what follows it. -/
def splitSign : List Char → Bool × List Char
  | '-' :: rest => (true, rest)
  | '+' :: rest => (false, rest)
  | chars => (false, chars)

/-- An exponent with its mark; nothing at all stands for exponent zero. -/
def exponent? : List Char → Option Int
  | [] => some 0
  | mark :: rest =>
      let (negative, digits) := splitSign rest
      if mark = 'e' ∨ mark = 'E' then
        (digits? 10 digits).map fun value => if negative then -value else value
      else none

/-- A decimal numeral after its sign. -/
def decimal? (negative : Bool) (chars : List Char) : Option Numeral :=
  let whole := chars.takeWhile Char.isDigit
  let (fraction, rest) :=
    match chars.dropWhile Char.isDigit with
    | '.' :: rest => (rest.takeWhile Char.isDigit, rest.dropWhile Char.isDigit)
    | rest => ([], rest)
  (digits? 10 (whole ++ fraction)).bind fun coefficient =>
    (exponent? rest).map fun exponent =>
      { negative, coefficient, exponent := exponent - fraction.length }

/-- The base that the mark after a leading zero names. -/
def base? (mark : Char) : Option Nat :=
  if mark = 'x' ∨ mark = 'X' then some 16
  else if mark = 'o' ∨ mark = 'O' then some 8
  else if mark = 'b' ∨ mark = 'B' then some 2
  else none

/-- An integer in a base named by a mark; it takes no sign. -/
def marked? : List Char → Option Numeral
  | '0' :: mark :: rest =>
      (base? mark).bind fun base => (digits? base rest).map fun coefficient =>
        { negative := false, coefficient, exponent := 0 }
  | _ => none

end Numeral

/-- The number that a text stands for: zero for a blank text, `nan` for one that is
no numeral. -/
def Number.ofText (text : Text) : Number :=
  let chars := text.trim.scalars
  let (negative, magnitude) := Numeral.splitSign chars
  if chars = [] then finite 0
  else if magnitude = "Infinity".toList then infinity negative
  else ((Numeral.marked? chars).or (Numeral.decimal? negative magnitude)).elim nan Numeral.value

end IpsecTransform
