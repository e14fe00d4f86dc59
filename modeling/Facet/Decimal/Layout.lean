import Facet.Decimal.Shortest

/-!
# Decimal numbers as text

The digits of a number are chosen elsewhere; here they are laid out. A `Layout` says which
exponents are written positionally, whether a whole number keeps a `.0`, and how wide an exponent
is written.
-/

namespace Facet.Decimal

/-- How a decimal number is written down. -/
structure Layout where
  /-- The least exponent of the leading digit that is still written positionally. -/
  leastPositional : Int
  /-- The first exponent of the leading digit that is no longer written positionally. -/
  firstScientific : Int
  /-- Whether a whole number written positionally ends in `.0`. -/
  keepsPoint : Bool
  /-- The least number of digits of an exponent. -/
  exponentWidth : Nat

namespace Layout

/-- Round-trip text of a double: positional from 0.0001 up to below 10^16, always with a point or
an exponent, the exponent signed and of two digits at least. -/
def roundTrip : Layout := ⟨-4, 16, true, 2⟩

/-- Text of a double at a given number of significant digits: positional as long as those digits
reach the units, and no trailing zeros. -/
def general (count : Nat) : Layout := ⟨-4, count, false, 2⟩

/-- A natural number in at least `width` decimal digits. -/
def padded (width n : Nat) : String :=
  let digits := Nat.toDigits 10 n
  String.ofList (List.replicate (width - digits.length) '0' ++ digits)

/-- The digits with a point after the first `whole` of them, filled up with zeros on either side
where the digits do not reach the units. -/
def positional (keepsPoint : Bool) (digits : List Char) (whole : Int) : List Char :=
  if whole ≤ 0 then
    '0' :: '.' :: (List.replicate (-whole).toNat '0' ++ digits)
  else if digits.length ≤ whole.toNat then
    digits ++ List.replicate (whole.toNat - digits.length) '0'
      ++ (if keepsPoint then ['.', '0'] else [])
  else digits.take whole.toNat ++ '.' :: digits.drop whole.toNat

/-- Scientific notation: one digit, the others after a point, then the exponent with its sign. -/
def scientific (width : Nat) (digits : List Char) (exponent : Int) : List Char :=
  let tail := digits.drop 1
  digits.take 1 ++ (if tail.isEmpty then [] else '.' :: tail)
    ++ 'e' :: (if exponent < 0 then '-' else '+') :: (padded width exponent.natAbs).toList

/-- Writes a number without trailing zeros. -/
def write (l : Layout) (s : Scaled) : String :=
  let digits := Nat.toDigits 10 s.digits
  let top : Int := s.exponent + digits.length - 1
  String.ofList <|
    if l.leastPositional ≤ top ∧ top < l.firstScientific then
      positional l.keepsPoint digits (top + 1)
    else scientific l.exponentWidth digits top

end Layout

/-- Puts a minus sign in front of negative numbers. -/
def signed (negative : Bool) (text : String) : String := if negative then "-" ++ text else text

/-- The text of a double that reads back as the same double, with the fewest digits. -/
def text (x : Float) : String :=
  match Binary.ofFloat x with
  | .nan => "nan"
  | .infinite negative => signed negative "inf"
  | .finite negative mantissa exponent =>
    signed negative <|
      if mantissa = 0 then "0.0" else Layout.roundTrip.write (shortest mantissa exponent)

/-- The text of a double rounded to `count` significant digits, without trailing zeros. -/
def textTo (count : Nat) (x : Float) : String :=
  match Binary.ofFloat x with
  | .nan => "nan"
  | .infinite negative => signed negative "inf"
  | .finite negative mantissa exponent =>
    signed negative <|
      if mantissa = 0 then "0"
      else
        (Layout.general count).write
          (Scaled.significant (Fraction.ofBinary mantissa exponent) count).stripZeros

end Facet.Decimal
