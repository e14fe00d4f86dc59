import Facet.Image.Samples
import Facet.Plane.Rectangle
import Facet.Word

/-!
# Drawing rectangles

Rectangles are drawn on a copy of a picture, as outlines one pixel wide or filled. Their corners may
come in any order, and what lies outside the picture is left out. A gray picture is made a coloured
one first. The parts of a colour are rounded and cut off to what a channel can hold.
-/

namespace Facet

namespace Rectangle

/-- The same rectangle with its corners in order. -/
def ordered (r : Rectangle) : Rectangle :=
  ⟨min r.left r.right, min r.top r.bottom, max r.left r.right, max r.top r.bottom⟩

/-- Whether a point lies on the outline of a rectangle. -/
def onOutline (r : Rectangle) (p : Point) : Bool :=
  r.contains p && (p.x = r.left || p.x = r.right || p.y = r.top || p.y = r.bottom)

/-- A coordinate of any kind, which has to fit in 32 bits. Nothing counts as zero. -/
def coordinate? : Value → Option Int
  | .null => some 0
  | .int n => if Word.fitsSigned 32 n then some n else none
  | _ => none

/-- The rectangle with edges of any kind. -/
def ofEdges? (edges : List Value) : Option Rectangle :=
  match edges.mapM coordinate? with
  | some [left, top, right, bottom] => some ⟨left, top, right, bottom⟩
  | _ => none

end Rectangle

/-! ## Colours -/

/-- The integer nearest to a double; a tie goes to the even neighbour. What does not fit in 32 bits
becomes the least number that does. -/
def nearestInt (x : Float) : Int :=
  match Decimal.Binary.ofFloat x with
  | .nan | .infinite _ => -Word.signedEnd 32
  | .finite negative mantissa exponent =>
    let size : Int := Decimal.roundQuotient (mantissa * Nat.pow 2 exponent.toNat)
      (Nat.pow 2 (-exponent).toNat)
    let n := if negative then -size else size
    if Word.fitsSigned 32 n then n else -Word.signedEnd 32

/-- The number nearest to a given one that an integer type holds. -/
def clamp (signed : Bool) (bits : Nat) (n : Int) : Int :=
  let least : Int := if signed then -Word.signedEnd bits else 0
  let greatest : Int := (if signed then Word.signedEnd bits else Word.count bits) - 1
  max least (min greatest n)

namespace ElementType

/-- The part of a colour as an element of a picture, if pictures that are drawn on can have such
elements. -/
def channel? : ElementType → Float → Option (Sample Float)
  | .integer signed bits, x =>
    if bits ≤ 16 ∨ (signed ∧ bits ≤ 32) then some (.whole (clamp signed bits (nearestInt x)))
    else none
  | .real 16, x => some (.real (halfPrecision x.toFloat32.toFloat))
  | .real 32, x => some (.real x.toFloat32.toFloat)
  | .real 64, x => some (.real x)
  | _, _ => none

/-- Whether gray pictures of an element type can be made coloured ones. -/
def convertsColour : ElementType → Bool
  | .integer false 8 | .integer false 16 | .real 32 => true
  | _ => false

end ElementType

/-! ## Pens -/

/-- How rectangles are drawn. -/
structure Pen where
  /-- The parts of the colour, one for each channel; missing ones are zero. -/
  colour : List Float
  /-- The width of the outline; a rectangle is filled if it is negative. -/
  thickness : Int

namespace Pen

/-- A thin green line. -/
def standard : Pen := ⟨[0, 255, 0], 1⟩

/-- The greatest width of an outline. -/
def widest : Int := 32767

/-- The greatest number of channels. -/
def channelLimit : Nat := 4

/-- A part of a colour, which has to be a number. -/
def part? (v : Value) : Option Float :=
  match v with
  | .bool _ | .int _ | .float _ => v.toDouble.toOption
  | _ => none

/-- The numbers of a colour of any kind. Nothing is black, and a single number is the first
channel. -/
def colourOf? : Value → Option (List Float)
  | .null => some []
  | .list items => items.mapM part?
  | .bytes data => some (data.map fun b => Float.ofNat b.toNat)
  | .text "" => some []
  | v => (part? v).map ([·])

/-- The width of an outline, of any kind. Nothing is the width of the standard pen. -/
def thicknessOf? : Value → Option Int
  | .null => some standard.thickness
  | .int n => if Word.fitsSigned 32 n && n ≤ widest then some n else none
  | _ => none

/-- The pen with a colour and a width of any kind; what is not given is that of the standard pen. -/
def ofValues? (colour thickness : Option Value) : Option Pen := do
  let colour ← colour.elim (some standard.colour) colourOf?
  let thickness ← thicknessOf? (thickness.getD .null)
  if channelLimit < colour.length then none else return ⟨colour, thickness⟩

/-- Whether a rectangle, drawn with a pen, covers a point. -/
def covers (pen : Pen) (r : Rectangle) (p : Point) : Bool :=
  if pen.thickness < 0 then r.ordered.contains p else r.ordered.onOutline p

/-- What a pen leaves in each of so many channels. -/
def paint? (pen : Pen) (type : ElementType) (channels : Nat) : Option (List (Sample Float)) :=
  (List.range channels).mapM fun i => type.channel? (pen.colour.getD i 0)

end Pen

/-! ## Pictures -/

/-- The columns and channels of an array with the given axes, as it is drawn on. Axes that are
missing have a single place. -/
def canvas? : List Nat → Option (Nat × Nat)
  | [] | [_] => some (1, 1)
  | [_, cols] => some (cols, 1)
  | [_, cols, channels] =>
    if channels ≠ 0 ∧ channels ≤ Pen.channelLimit then some (cols, channels) else none
  | _ => none

namespace Samples

/-- An array as a picture with channels. A gray one gets three, unless it is empty or its element
type has no coloured pictures. -/
def coloured? (s : Samples Float) : Option (Samples Float) :=
  match s.array with
  | ⟨[m, n], entries⟩ =>
    if s.element.convertsColour ∧ m * n ≠ 0 then
      some ⟨s.element, ⟨[m, n, 3], (entries.map fun x => Vector.replicate 3 x).flatten.cast
        (by simp [extent, Nat.mul_assoc])⟩⟩
    else none
  | _ => some s

/-- An array with rectangles drawn on it. -/
def drawn? (s : Samples Float) (pen : Pen) (rects : List Rectangle) : Option (Samples Float) := do
  let (cols, channels) ← canvas? s.shape
  let paint ← pen.paint? s.element channels
  let covered (place : Nat) : Bool :=
    rects.any fun r => pen.covers r ⟨place % cols, place / cols⟩
  return ⟨s.element, ⟨s.shape, s.array.entries.mapIdx fun i x =>
    if covered (i / channels) then paint.getD (i % channels) x else x⟩⟩

end Samples

/-- An argument that is an array to be drawn on. A list or a mapping can be copied as well, but only
an array has axes. -/
def drawable (image : ArrayLike Float) : Except Fault (Samples Float) :=
  match image with
  | .nested (.list _) | .nested (.mapping _) => image.demand "ndim"
  | image => image.demand "copy"

/-- A copy of a picture with rectangles drawn on it, each given by its edges. Colour and width may
be of any kind, and without rectangles they do not matter. -/
def drawRects (image : Samples Float) (rects : List (List Value))
    (colour thickness : Option Value) : Except Fault (Samples Float) :=
  let result : Option (Samples Float) := do
    let picture ← image.coloured?
    if rects.isEmpty then return picture
    picture.drawn? (← Pen.ofValues? colour thickness) (← rects.mapM Rectangle.ofEdges?)
  match result with
  | some picture => .ok picture
  | none => .error .picture

end Facet
