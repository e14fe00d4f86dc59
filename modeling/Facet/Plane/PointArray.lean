import Facet.Plane.Mapping
import Facet.Tensor

/-!
# Many points at once

Arrays of coordinates hold 64-bit integers. Their arithmetic wraps around, so a mapped coordinate
agrees with the one that `Mapping` gives for a single point as long as the result fits in 64 bits.
Margin and stride have to fit as well, even where there is nothing to map.
-/

namespace Facet

/-- An array of coordinates. -/
abbrev PointArray := Tensor Int64

namespace PointArray

/-- An array with at least two axes: a single number becomes a row, and so does a list. -/
def ofTensor (t : Tensor Int64) : PointArray :=
  match t with
  | ⟨[], entries⟩ => ⟨[1, 1], entries.cast rfl⟩
  | ⟨[n], entries⟩ => ⟨[1, n], entries.cast (Nat.one_mul (extent [n])).symm⟩
  | t => t

/-- Reads an array of coordinates from a nested list of any kind. -/
def ofValue (v : Value) : Except ArgumentFault PointArray := do
  let t ← Tensor.ofValue v
  return ofTensor (← t.mapExcept Value.toWord)

end PointArray

namespace Mapping

/-- The margin and the stride as 64-bit integers. -/
def words (m : Mapping) : Except ArgumentFault (Int64 × Int64) := do
  return (← (Value.int m.margin).toWord, ← (Value.int m.stride.step).toWord)

/-- A 64-bit integer divided by another, rounded down. -/
def floorDiv (a b : Int64) : Int64 := Int64.ofInt (a.toInt.fdiv b.toInt)

/-- Every coordinate of an array mapped to feature space. -/
def imageToFeatureArray (m : Mapping) (points : PointArray) : Except ArgumentFault PointArray := do
  let (margin, step) ← m.words
  return points.map fun v => floorDiv (v - margin) step

/-- Every coordinate of an array mapped to image space. -/
def featureToImageArray (m : Mapping) (points : PointArray) : Except ArgumentFault PointArray := do
  let (margin, step) ← m.words
  return points.map fun v => v * step + margin

end Mapping

end Facet
