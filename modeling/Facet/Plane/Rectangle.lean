import Facet.Fault

/-!
# Points and rectangles

Integer points of the plane and axis-parallel rectangles with inclusive corners. A rectangle whose
right edge lies left of its left edge, or whose bottom lies above its top, holds no point. Such
rectangles are kept as they are: they arise where two corners are moved independently.
-/

namespace Facet

/-- A point; `x` counts columns and `y` rows. -/
structure Point where
  /-- The column. -/
  x : Int
  /-- The row. -/
  y : Int
deriving Repr, DecidableEq

/-- A rectangle with inclusive corners. -/
structure Rectangle where
  /-- The first column. -/
  left : Int
  /-- The first row. -/
  top : Int
  /-- The last column. -/
  right : Int
  /-- The last row. -/
  bottom : Int
deriving Repr, DecidableEq

namespace Rectangle

/-- The rectangle between two corners, which are not put in order. -/
def ofCorners (topLeft bottomRight : Point) : Rectangle :=
  ⟨topLeft.x, topLeft.y, bottomRight.x, bottomRight.y⟩

/-- The rectangle of a given size around a centre pixel. Of two middle pixels the centre is the
first. -/
def centeredAt (center : Point) (width height : Int) : Rectangle :=
  let left := center.x - (width - 1).fdiv 2
  let top := center.y - (height - 1).fdiv 2
  ⟨left, top, left + width - 1, top + height - 1⟩

/-- The number of columns. -/
def width (r : Rectangle) : Int := r.right - r.left + 1

/-- The number of rows. -/
def height (r : Rectangle) : Int := r.bottom - r.top + 1

/-- Whether the rectangle holds no point. -/
def isEmpty (r : Rectangle) : Bool := r.width ≤ 0 || r.height ≤ 0

/-- The number of points in the rectangle. -/
def area (r : Rectangle) : Int := if r.isEmpty then 0 else r.width * r.height

/-- The first corner. -/
def topLeft (r : Rectangle) : Point := ⟨r.left, r.top⟩

/-- The last corner. -/
def bottomRight (r : Rectangle) : Point := ⟨r.right, r.bottom⟩

/-- Whether a point lies in the rectangle. -/
def contains (r : Rectangle) (p : Point) : Bool :=
  (r.left ≤ p.x && p.x ≤ r.right) && (r.top ≤ p.y && p.y ≤ r.bottom)

/-- The points that two rectangles have in common. -/
def intersect (r s : Rectangle) : Rectangle :=
  ⟨max r.left s.left, max r.top s.top, min r.right s.right, min r.bottom s.bottom⟩

/-- The text of a rectangle. -/
def text (r : Rectangle) : Except ArgumentFault String :=
  textShowing [.int r.left, .int r.top, .int r.right, .int r.bottom]
    ("Rectangle(left=" ++ toString r.left ++ ", top=" ++ toString r.top ++ ", right="
      ++ toString r.right ++ ", bottom=" ++ toString r.bottom ++ ")")

end Rectangle

end Facet
