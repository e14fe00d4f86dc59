import Facet.Extraction.Grid
import Facet.Fit.Design
import Facet.Fit.Operator
import Facet.Image.Intensity

/-!
# Two ways to apply an operator to every window

The `filter` backend correlates the whole image with each row of the operator, laid out as a window
around its centre, and then takes every `stride`-th response along both axes. Beyond the border the
image is continued by its nearest pixel, so there is a response at every pixel; only those are taken
whose window lies within the image. The `windows` backend goes through the windows themselves and
multiplies the operator with the pixels of each, row by row.
-/

namespace Facet

/-- A way to apply an operator. -/
inductive Backend where
  /-- Correlate the whole image and take samples. -/
  | filter
  /-- Go through the windows. -/
  | windows
deriving Repr, DecidableEq

namespace Backend

/-- The name of a backend. -/
def name : Backend → String
  | .filter => "filter"
  | .windows => "windows"

/-- The backend that is used where none is given. -/
def standard : Backend := .filter

/-- Reads the name of a backend. -/
def ofValue : Value → Except Fault Backend
  | .text "filter" => .ok .filter
  | .text "windows" => .ok .windows
  | v => .error (.showing [v] (.setting (.unknownBackend v)))

/-- Reads the name of a backend where one is given. -/
def ofValue? (v : Option Value) : Except Fault Backend :=
  ofValue (v.getD (.text standard.name))

end Backend

/-! ## Samples of an axis -/

/-- Every `step`-th place from `start` up to, but not including, `stop`. -/
structure Sampling where
  /-- The first place. -/
  start : Nat
  /-- The end. -/
  stop : Nat
  /-- The distance between neighbours. -/
  step : Nat

namespace Sampling

/-- The number of places on an axis of a given length. -/
def count (s : Sampling) (length : Nat) : Nat :=
  (min s.stop length - s.start + (s.step - 1)) / s.step

/-- The place of a given number. -/
def place (s : Sampling) (i : Nat) : Nat := s.start + i * s.step

/-- The centres of so many windows. -/
def centres (w : Window) (d : Stride) (count : Nat) : Sampling where
  start := w.margin
  stop := w.margin + (count - 1) * d.step + 1
  step := d.step

end Sampling

/-- The number of windows along an axis of an image. -/
def windowCount (size : Nat) (w : Window) (d : Stride) : Nat :=
  (axisCount size w.side d.step).toNat

/-- The number of window positions on an axis that is at least as long as the window. -/
def positionCount (size : Nat) (w : Window) (d : Stride) : Nat := (size - w.side) / d.step + 1

/-! ## Coefficients at every place -/

variable {α : Type} [Scalar α]

/-- The pixel at a place of an image that is continued by `margin` pixels on each side, places
counted from the corner of what is continued. Outside the image it is the nearest pixel: differences
of natural numbers stop at zero, and the minimum stops at the last pixel. -/
@[inline] def Raster.padded (image : Raster α) (margin y x : Nat) : α :=
  let r := min (y - margin) (image.rows - 1)
  let c := min (x - margin) (image.cols - 1)
  if h : r < image.rows ∧ c < image.cols then image.pixels.entry ⟨r, h.1⟩ ⟨c, h.2⟩ else 0

/-- The correlation of an image with a row of an operator, laid out as a window whose centre lies at
the given pixel. -/
@[specialize] def response (image : Raster α) (w : Window) (kernel : Vector α w.area)
    (y x : Nat) : α :=
  sumOver w.area fun p =>
    kernel.get p * image.padded w.margin (y + p / w.side) (x + p % w.side)

/-- The coefficients at every place, by correlation. -/
@[specialize] def filterCoefficients (image : Raster α) (w : Window) (d : Stride) {terms : Nat}
    (operator : Table α terms w.area) (rows cols : Nat) : Grid α :=
  let down := Sampling.centres w d rows
  let across := Sampling.centres w d cols
  Grid.ofFn (down.count image.rows) (across.count image.cols) terms fun r c i =>
    response image w (operator.get i) (down.place r) (across.place c)

/-- The pixel at a place within a window whose first corner is given. -/
@[inline] def Raster.within (image : Raster α) (w : Window) (top left : Nat) (p : Nat) : α :=
  let r := top + p / w.side
  let c := left + p % w.side
  if h : r < image.rows ∧ c < image.cols then image.pixels.entry ⟨r, h.1⟩ ⟨c, h.2⟩ else 0

/-- The coefficients at every place, window by window. -/
@[specialize] def windowCoefficients (image : Raster α) (w : Window) (d : Stride) {terms : Nat}
    (operator : Table α terms w.area) : Grid α :=
  Grid.ofFn (positionCount image.rows w d) (positionCount image.cols w d) terms fun r c i =>
    sumOver w.area fun p =>
      operator.entry i p * image.within w (r * d.step) (c * d.step) p

end Facet
