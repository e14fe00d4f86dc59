import Facet.Extraction.Kernels

/-!
# Descriptors

The descriptor of a window consists of its coefficients but the first, each divided by the first,
which stands for the mean brightness. Where the first is zero the quotients are whatever the
numbers make of it, and nothing is refused.
-/

namespace Facet

variable {α : Type} [Scalar α]

/-- The quotients of all coefficients but the first by the first. -/
@[inline] def quotients {n : Nat} (coefficients : Vector α n) : Vector α (n - 1) :=
  Vector.ofFn fun i =>
    have := i.isLt
    coefficients.get ⟨i.val + 1, by omega⟩ / coefficients.get ⟨0, by omega⟩

/-- The quotients at every place of a grid. -/
@[specialize] def Grid.quotients (g : Grid α) : Grid α :=
  ⟨g.rows, g.cols, g.depth - 1, g.values.map fun row => row.map Facet.quotients⟩

/-- The coefficients of every window of an image. -/
@[specialize] def Backend.coefficients (b : Backend) (image : Raster α) (w : Window) (d : Stride)
    {terms : Nat} (operator : Table α terms w.area) : Grid α :=
  match b with
  | .filter =>
    filterCoefficients image w d operator (windowCount image.rows w d) (windowCount image.cols w d)
  | .windows => windowCoefficients image w d operator

/-- The descriptors where there are no windows. An operator without rows leaves no coefficients,
which an empty grid cannot express. -/
def emptyDescriptors (rows cols terms : Nat) : Except ArgumentFault (Grid α) :=
  if terms = 0 then .error .negativeDimensions
  else .ok (Grid.ofFn rows cols (terms - 1) fun _ _ _ => 0)

/-- The descriptors of all windows of an image of intensities. -/
@[specialize] def descriptors (b : Backend) (image : Raster α) (w : Window) (d : Stride)
    {terms : Nat} (operator : Table α terms w.area) : Except ArgumentFault (Grid α) :=
  let rows := windowCount image.rows w d
  let cols := windowCount image.cols w d
  if rows = 0 ∨ cols = 0 then emptyDescriptors rows cols terms
  else .ok (b.coefficients image w d operator).quotients

/-- The descriptors of all windows of an image. An operator has to have a column for each pixel of
a window. -/
@[specialize] def extract (b : Backend) (image : ArrayLike α) (operator : StoredMatrix α)
    (w : Window) (d : Stride) : Except Fault (Grid α) := do
  if h : operator.cols = w.area then
    let samples ← image.toSamples.mapError .argument
    let raster ← samples.intensity.mapError .pixels
    let entries : Table α operator.rows w.area := h ▸ operator.entries
    (descriptors b raster w d entries).mapError .argument
  else throw (.argument (.operatorColumns operator.cols w.area))

/-- A stored matrix as an array of numbers. -/
def Samples.ofMatrix (m : StoredMatrix α) : Samples α where
  element := .real 64
  array := ⟨[m.rows, m.cols], (m.entries.map fun row => row.map Sample.real).flatten.cast
    (by simp [extent])⟩

/-- The descriptors of all windows of an image, for arguments of any kind. They are checked in the
order backend, window, stride, operator, image, and the elements of the operator only where there
are windows to apply it to. -/
def extractWith (backend : Option Value) (image operator : ArrayLike α) (window : Value)
    (stride : Option Value) : Except Fault (Grid α) := do
  let b ← Backend.ofValue? backend
  let w ← Window.ofValue window
  let d ← Stride.ofValue (stride.getD Settings.defaultStride.value)
  let operator ← operator.demand "shape"
  let (terms, columns) ← (operatorSides operator.shape).mapError .argument
  if columns ≠ w.area then
    throw (.argument (.showing [.int w.area] (.operatorColumns columns w.area)))
  let samples ← image.toSamples.mapError .argument
  let raster ← samples.intensity.mapError .pixels
  let rows := windowCount raster.rows w d
  let cols := windowCount raster.cols w d
  if rows = 0 ∨ cols = 0 then (emptyDescriptors rows cols terms).mapError .argument
  else
    let kernels ← b.kernels operator w cols
    return (b.coefficients raster w d kernels.rows).quotients

end Facet
