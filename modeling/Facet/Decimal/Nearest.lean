import Facet.Decimal.Rounding

/-!
# The double nearest to a fraction

Doubles have 53 binary digits, the least of them no finer than `2 ^ -1074`. A fraction is rounded to
a multiple of the power of two that these two bounds allow, and a tie goes to the even multiple.
-/

namespace Facet.Decimal.Fraction

/-- The exponent of the leading binary digit of a positive fraction: the greatest `k` with `2 ^ k`
not above it. The leading digits of the two parts leave only two candidates. -/
def leadingBit (q : Fraction) : Int :=
  let k : Int := (Nat.log2 q.numerator : Int) - Nat.log2 q.denominator
  if q.numerator * Nat.pow 2 (-k).toNat < q.denominator * Nat.pow 2 k.toNat then k - 1 else k

/-- The double nearest to a fraction. It is infinite if the fraction is beyond the range of
doubles. -/
def toFloat (q : Fraction) : Float :=
  if q.numerator = 0 then 0
  else
    let grid := max (q.leadingBit - 52) (-1074)
    let n := roundQuotient (q.numerator * Nat.pow 2 (-grid).toNat)
      (q.denominator * Nat.pow 2 grid.toNat)
    (Float.ofNat n).scaleB grid

end Facet.Decimal.Fraction
