/-!
# The numbers that fits are computed with

Fitting, extraction and normalisation use the four operations, a comparison and the integers, so
they are written for any type that has those. The program runs them on doubles; what they compute
is a statement about exact numbers, for which rounding to single precision does nothing.
-/

namespace Facet

/-- A type of numbers: the four operations, a decidable order and the integers. -/
class Scalar (α : Type) extends Zero α, One α, Add α, Sub α, Mul α, Div α where
  /-- The integer as a number. -/
  ofInt : Int → α
  /-- Whether the first number is below the second. -/
  less : α → α → Bool
  /-- Whether a number is finite. -/
  isFinite : α → Bool
  /-- The number at single precision. -/
  single : α → α
  /-- The integer at single precision, rounded once. -/
  singleOfInt : Int → α
  /-- The number that a double stands for. -/
  ofDouble : Float → α

instance : Scalar Float where
  ofInt := Float.ofInt
  less x y := x < y
  isFinite := Float.isFinite
  single x := x.toFloat32.toFloat
  singleOfInt n := (Float32.ofInt n).toFloat
  ofDouble x := x

end Facet
