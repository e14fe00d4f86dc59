import Facet.Plane.Rectangle
import Facet.Settings.Basic
import Facet.Value.Arithmetic

/-!
# Image space and feature space

The feature in column `x` and row `y` belongs to the window centred at the image pixel
`(x · stride + margin, y · stride + margin)`. Going back, an image pixel is mapped to the last
feature whose centre does not lie beyond it; near the border of the image that is a place outside
the grid of features.
-/

namespace Facet

/-- How places in an image and places in its grid of features correspond. -/
structure Mapping where
  /-- The window around each feature. -/
  window : Window
  /-- The distance between features. -/
  stride : Stride
deriving DecidableEq

namespace Mapping

/-- The mapping that belongs to a configuration. -/
def ofSettings (s : Settings) : Mapping := ⟨s.window, s.stride⟩

/-- Reads a window and a stride, each with its default. -/
def ofValues (window stride : Option Value) : Except Fault Mapping := do
  let window ← Window.ofValue (window.getD Settings.defaultWindow.value)
  let stride ← Stride.ofValue (stride.getD Settings.defaultStride.value)
  return ⟨window, stride⟩

/-- The distance from the first pixel of an image to the first centre. -/
def margin (m : Mapping) : Nat := m.window.margin

/-- One coordinate of an image pixel in feature space. -/
def toFeature (m : Mapping) (v : Int) : Int := (v - m.margin).fdiv m.stride.step

/-- One coordinate of a feature in image space. -/
def toImage (m : Mapping) (v : Int) : Int := v * m.stride.step + m.margin

/-- The feature centred at an image pixel, or the last one before it. -/
def imageToFeature (m : Mapping) (p : Point) : Point := ⟨m.toFeature p.x, m.toFeature p.y⟩

/-- The image pixel at the centre of a feature's window. -/
def featureToImage (m : Mapping) (p : Point) : Point := ⟨m.toImage p.x, m.toImage p.y⟩

/-- Both corners of an image rectangle, mapped to features. -/
def imageToFeatureRect (m : Mapping) (r : Rectangle) : Rectangle :=
  .ofCorners (m.imageToFeature r.topLeft) (m.imageToFeature r.bottomRight)

/-- Both corners of a rectangle of features, mapped to their centres. -/
def featureToImageRect (m : Mapping) (r : Rectangle) : Rectangle :=
  .ofCorners (m.featureToImage r.topLeft) (m.featureToImage r.bottomRight)

/-- The image pixels from which the descriptor at a place is computed. -/
def block (m : Mapping) (row col : Int) : Rectangle :=
  .centeredAt (m.featureToImage ⟨col, row⟩) m.window.side m.window.side

end Mapping

/-! ## Pairs of any kind -/

namespace Value

/-- What a value yields when it is gone through item by item. -/
def items? : Value → Option (List Value)
  | .list items => some items
  | .text s => some (s.toList.map fun c => .text (String.singleton c))
  | .bytes data => some (data.map fun b => .int b.toNat)
  | .mapping entries => some (entries.map Prod.fst)
  | _ => none

/-- The two items of a pair. -/
def pair (v : Value) : Except ArgumentFault (Value × Value) :=
  match v.items? with
  | none => .error (.notIterable v.kind)
  | some [a, b] => .ok (a, b)
  | some (_ :: _ :: _ :: _) => .error .tooManyValues
  | some short => .error (.notEnoughValues short.length)

end Value

namespace Mapping

/-- A coordinate of any kind in feature space. -/
def toFeatureOf (m : Mapping) (v : Value) : Except ArgumentFault Value := do
  (← v.minus (.int m.margin)).floorDiv (.int m.stride.step)

/-- A coordinate of any kind in image space. -/
def toImageOf (m : Mapping) (v : Value) : Except ArgumentFault Value :=
  v.scaledPlus m.stride.step m.margin

/-- The feature at an image point given as a pair of any kind. -/
def imageToFeatureOf (m : Mapping) (item : Value) : Except ArgumentFault (Value × Value) := do
  let (x, y) ← item.pair
  return (← m.toFeatureOf x, ← m.toFeatureOf y)

/-- The centre of a feature given as a pair of any kind. -/
def featureToImageOf (m : Mapping) (item : Value) : Except ArgumentFault (Value × Value) := do
  let (x, y) ← item.pair
  return (← m.toImageOf x, ← m.toImageOf y)

/-- The edges of an image rectangle in feature space. -/
def imageToFeatureEdges (m : Mapping) (edges : List Value) : Except ArgumentFault (List Value) :=
  edges.mapM m.toFeatureOf

/-- The edges of a rectangle of features in image space. -/
def featureToImageEdges (m : Mapping) (edges : List Value) : Except ArgumentFault (List Value) :=
  edges.mapM m.toImageOf

/-- Whether nothing lies between two numbers, both of them included. -/
def spansNothing (first last : Value) : Except ArgumentFault Bool := do
  let size ← (← last.minus first).plus 1
  return size.sortsBefore? (.int 0) = some true || size.sameKey (.int 0)

/-- Whether a rectangle with edges of any kind holds no point. -/
def edgesEmpty : List Value → Except ArgumentFault Bool
  | [left, top, right, bottom] => do
    if ← spansNothing left right then return true else spansNothing top bottom
  | _ => return true

/-- The edges of the block that belongs to a place of any kind. -/
def blockEdges (m : Mapping) (row col : Value) : Except ArgumentFault (List Value) := do
  let x ← m.toImageOf col
  let y ← m.toImageOf row
  let left ← x.minus (.int m.margin)
  let top ← y.minus (.int m.margin)
  return [left, top, ← left.plus (m.window.side - 1), ← top.plus (m.window.side - 1)]

end Mapping

end Facet
