import Facet.Decimal.Binary

/-!
# Rounding to a decimal grid

A quotient is rounded to the nearest integer with ties to the even neighbour. On top of that: a
number rounded to so many significant digits, or to a multiple of a power of ten.
-/

namespace Facet.Decimal

/-- The integer nearest to `numerator / denominator`; a tie goes to the even neighbour. -/
def roundQuotient (numerator denominator : Nat) : Nat :=
  let quotient := numerator / denominator
  let twice := 2 * (numerator % denominator)
  if twice < denominator then quotient
  else if denominator < twice then quotient + 1
  else quotient + quotient % 2

/-- A decimal number `digits · 10 ^ exponent`. -/
structure Scaled where
  /-- The significant digits, read as one integer. -/
  digits : Nat
  /-- The power of ten that the last digit counts. -/
  exponent : Int
deriving Repr, DecidableEq

namespace Scaled

/-- The multiple of `10 ^ exponent` nearest to a fraction. -/
def ofFraction (q : Fraction) (exponent : Int) : Scaled :=
  let scaled := q.scaleDown exponent
  ⟨roundQuotient scaled.numerator scaled.denominator, exponent⟩

/-- A positive fraction rounded to `count` significant digits. Rounding up across a power of ten
leaves one digit more than asked for, all zeros after the first; `stripZeros` removes them. -/
def significant (q : Fraction) (count : Nat) : Scaled :=
  ofFraction q (q.leadingExponent - (count - 1))

/-- Drops one trailing zero after the other, at most `fuel` of them. -/
def stripZerosUpTo : Nat → Scaled → Scaled
  | 0, s => s
  | fuel + 1, s =>
    if s.digits ≠ 0 ∧ s.digits % 10 = 0 then stripZerosUpTo fuel ⟨s.digits / 10, s.exponent + 1⟩
    else s

/-- The same number without trailing zeros; zero is left as it is. -/
def stripZeros (s : Scaled) : Scaled := stripZerosUpTo (Fraction.digitCount s.digits) s

end Scaled

/-- Rounds a double to a multiple of a power of ten that keeps `count` significant digits but is
never finer than `10 ^ -places`, without trailing zeros. The answer is `none` where nothing but
zero is left, and for what is not finite. -/
def Scaled.ofFloat? (x : Float) (count places : Nat) : Option (Bool × Scaled) :=
  match Binary.ofFloat x with
  | .nan | .infinite _ => none
  | .finite negative mantissa exponent =>
    if mantissa = 0 then none
    else
      let q := Fraction.ofBinary mantissa exponent
      let grid := max (q.leadingExponent - (count - 1)) (-places)
      let rounded := Scaled.ofFraction q grid
      if rounded.digits = 0 then none else some (negative, rounded.stripZeros)

end Facet.Decimal
