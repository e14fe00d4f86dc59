import Facet.Decimal.Rounding

/-!
# The fewest digits that read back

A double stands for all reals that round to it, an interval around its exact value. Of the decimal
numbers in that interval the shortest are the ones with the coarsest grid, and of those with the
same grid the nearest one is written. Seventeen digits always suffice.
-/

namespace Facet.Decimal

/-- The reals that round to one double: two ends, both included or both excluded. -/
structure Interval where
  /-- The lower end. -/
  low : Fraction
  /-- The upper end. -/
  high : Fraction
  /-- Whether the ends themselves belong to it. -/
  closed : Bool

namespace Interval

/-- The interval of `mantissa · 2 ^ exponent`: half way to both neighbours, ends included exactly
if the mantissa is even, since ties go to even mantissas. -/
def ofBinary (mantissa : Nat) (exponent : Int) : Interval where
  low :=
    if Binary.atBinadeFloor mantissa exponent then
      Fraction.ofBinary (4 * mantissa - 1) (exponent - 2)
    else Fraction.ofBinary (2 * mantissa - 1) (exponent - 1)
  high := Fraction.ofBinary (2 * mantissa + 1) (exponent - 1)
  closed := mantissa % 2 = 0

/-- Whether the integer `n`, counted in units of a grid, lies above the end `q` of that unit. -/
def above (closed : Bool) (q : Fraction) (n : Nat) : Bool :=
  q.numerator < n * q.denominator || (closed && q.numerator = n * q.denominator)

/-- Whether the integer `n`, counted in units of a grid, lies below the end `q` of that unit. -/
def below (closed : Bool) (q : Fraction) (n : Nat) : Bool :=
  n * q.denominator < q.numerator || (closed && n * q.denominator = q.numerator)

/-- Whether `n · 10 ^ grid` lies in the interval. -/
def contains (i : Interval) (grid : Int) (n : Nat) : Bool :=
  above i.closed (i.low.scaleDown grid) n && below i.closed (i.high.scaleDown grid) n

end Interval

/-- The better of the value's two neighbours on the grid `10 ^ grid`, if one of them reads back. -/
def neighbourOn? (q : Fraction) (i : Interval) (grid : Int) : Option Scaled :=
  let scaled := q.scaleDown grid
  let floor := scaled.numerator / scaled.denominator
  match i.contains grid floor, i.contains grid (floor + 1) with
  | true, true => some ⟨roundQuotient scaled.numerator scaled.denominator, grid⟩
  | true, false => some ⟨floor, grid⟩
  | false, true => some ⟨floor + 1, grid⟩
  | false, false => none

/-- The shortest decimal number that rounds to the positive double `mantissa · 2 ^ exponent`. -/
def shortest (mantissa : Nat) (exponent : Int) : Scaled :=
  let q := Fraction.ofBinary mantissa exponent
  let i := Interval.ofBinary mantissa exponent
  let top := q.leadingExponent
  let grids := (List.range 17).map fun (n : Nat) => top - n
  ((grids.findSome? (neighbourOn? q i)).getD (Scaled.ofFraction q (top - 16))).stripZeros

end Facet.Decimal
