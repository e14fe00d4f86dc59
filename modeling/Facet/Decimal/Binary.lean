/-!
# Doubles taken apart

A finite double is an integer times a power of two. Everything that writes a double in decimal
works on that pair in exact integer arithmetic, so no digit depends on a rounding of the machine.
-/

namespace Facet.Decimal

/-- The value of a double: not a number, an infinity, or `± mantissa · 2 ^ exponent`. -/
inductive Binary where
  /-- No number at all. -/
  | nan
  /-- An infinity of the given sign. -/
  | infinite (negative : Bool)
  /-- The number `± mantissa · 2 ^ exponent`. -/
  | finite (negative : Bool) (mantissa : Nat) (exponent : Int)
deriving Repr, DecidableEq

namespace Binary

/-- The leading one of a mantissa, which is not stored: `2 ^ 52`. -/
def hiddenBit : Nat := Nat.pow 2 52

/-- Splits the 64 bits of a double: 52 low bits of fraction, eleven of exponent, one of sign. An
exponent field of zero has no hidden leading one, and the field of all ones holds the values that
are not finite. -/
def ofFloat (x : Float) : Binary :=
  let bits := x.toBits.toNat
  let negative := bits / Nat.pow 2 63 = 1
  let field : Nat := bits / hiddenBit % 2048
  let fraction : Nat := bits % hiddenBit
  if field = 2047 then
    if fraction = 0 then .infinite negative else .nan
  else if field = 0 then .finite negative fraction (-1074)
  else .finite negative (hiddenBit + fraction) ((field : Int) - 1075)

/-- Whether the lower neighbour is nearer than the upper one: the mantissa is the least of its
binade and the exponent is not the least of all. -/
def atBinadeFloor (mantissa : Nat) (exponent : Int) : Bool :=
  mantissa = hiddenBit && exponent != -1074

end Binary

/-- A positive fraction `numerator / denominator`, kept unreduced. -/
structure Fraction where
  /-- The dividend. -/
  numerator : Nat
  /-- The divisor. -/
  denominator : Nat
deriving Repr, DecidableEq

namespace Fraction

/-- `mantissa · 2 ^ exponent` as a fraction. -/
def ofBinary (mantissa : Nat) (exponent : Int) : Fraction :=
  ⟨mantissa * Nat.pow 2 exponent.toNat, Nat.pow 2 (-exponent).toNat⟩

/-- The fraction divided by `10 ^ places`. -/
def scaleDown (q : Fraction) (places : Int) : Fraction :=
  ⟨q.numerator * Nat.pow 10 (-places).toNat, q.denominator * Nat.pow 10 places.toNat⟩

/-- The number of decimal digits of a natural number; zero has one. -/
def digitCount (n : Nat) : Nat := (Nat.toDigits 10 n).length

/-- The exponent of the leading decimal digit of a positive fraction: the greatest `k` with
`10 ^ k` not above it. The digit counts of the two parts leave only two candidates. -/
def leadingExponent (q : Fraction) : Int :=
  let k : Int := (digitCount q.numerator : Int) - digitCount q.denominator
  let scaled := q.scaleDown k
  if scaled.numerator < scaled.denominator then k - 1 else k

end Fraction

end Facet.Decimal
