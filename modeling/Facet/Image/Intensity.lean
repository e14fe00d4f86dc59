import Facet.Image.Samples

/-!
# One intensity per pixel

Features are extracted from a single channel. A gray image is taken as it is, and a colour image,
its channels blue, green and red, is weighed. Images with transparency are refused, and so is all
that is no image: the checks come in the order type, axes, transparency, channels.
-/

namespace Facet

variable {α : Type} [Scalar α]

/-- An image with one number per pixel. -/
structure Raster (α : Type) where
  /-- The number of rows. -/
  rows : Nat
  /-- The number of columns. -/
  cols : Nat
  /-- The intensities. -/
  pixels : Table α rows cols

/-! ## Gray from colour -/

/-- The gray level of a colour whose channels have 8 or 16 bits: weights in units of `2 ^ -15`, the
sum rounded to the nearest integer. -/
def grayOfWhole (blue green red : Int) : Int :=
  (3735 * blue + 19235 * green + 9798 * red + 16384).fdiv 32768

/-- A weight in thousandths, at single precision. -/
def grayWeight (thousandths : Int) : α :=
  Scalar.single (Scalar.ofInt thousandths / Scalar.ofInt 1000)

/-- The gray level of any other colour, computed at single precision. -/
def grayOfReal (blue green red : α) : α :=
  Scalar.single
    (Scalar.single
      (Scalar.single (grayWeight 114 * blue) + Scalar.single (grayWeight 587 * green))
      + Scalar.single (grayWeight 299 * red))

/-- Whether colours of an element type are weighed as integers. -/
def ElementType.weighsWhole : ElementType → Bool
  | .bool | .integer false 8 | .integer false 16 => true
  | _ => false

/-- The gray level of a pixel. -/
def gray (type : ElementType) (blue green red : Sample α) : α :=
  if type.weighsWhole then
    Scalar.ofInt (grayOfWhole blue.toWhole green.toWhole red.toWhole)
  else grayOfReal blue.toSingle green.toSingle red.toSingle

/-! ## Images -/

/-- Whether so many channels include transparency: gray with it, or colour with it. -/
def carriesAlpha (channels : Nat) : Bool := channels = 2 || channels = 4

/-- Whether an array is an image with transparency. -/
def Samples.hasAlpha (s : Samples α) : Bool :=
  match s.shape with
  | [_, _, channels] => carriesAlpha channels
  | _ => false

/-- The intensities of an image. -/
@[specialize] def Samples.intensity (s : Samples α) : Except PixelFault (Raster α) :=
  if !s.element.isReal then .error (.elementType s.element.name)
  else
    match s.array with
    | ⟨[m, n], entries⟩ => .ok ⟨m, n, Table.ofFn fun r c => (Tensor.entry₂ entries r c).toReal⟩
    | ⟨[m, n, channels], entries⟩ =>
      if carriesAlpha channels then .error (.alphaChannel channels)
      else
        match channels, entries with
        | 1, entries =>
          .ok ⟨m, n, Table.ofFn fun r c => (Tensor.entry₃ entries r c 0).toReal⟩
        | 3, entries =>
          .ok ⟨m, n, Table.ofFn fun r c =>
            gray s.element (Tensor.entry₃ entries r c 0) (Tensor.entry₃ entries r c 1)
              (Tensor.entry₃ entries r c 2)⟩
        | channels, _ => .error (.channelCount channels)
    | ⟨shape, _⟩ => .error (.rank shape)

end Facet
