import Facet.Fault
import Facet.Table
import Facet.Value.Arithmetic

/-!
# Grids of descriptors

A grid has one list of numbers at each place, all of the same length. Along an axis of `size`
pixels, windows of `window` pixels begin every `stride` pixels as long as they fit; their number is
rounded down, and there is none if not even the first one fits.
-/

namespace Facet

/-- A grid with a list of `depth` numbers at each place. -/
structure Grid (α : Type) where
  /-- The number of rows. -/
  rows : Nat
  /-- The number of columns. -/
  cols : Nat
  /-- The length of the list at each place. -/
  depth : Nat
  /-- The lists, row by row. -/
  values : Table (Vector α depth) rows cols

namespace Grid

variable {α : Type}

/-- The grid of the values of a function. -/
@[inline] def ofFn (rows cols depth : Nat) (f : Fin rows → Fin cols → Fin depth → α) : Grid α :=
  ⟨rows, cols, depth, Table.ofFn fun r c => Vector.ofFn (f r c)⟩

/-- The number at one place of one list. -/
@[inline] def entry (g : Grid α) (r : Fin g.rows) (c : Fin g.cols) (i : Fin g.depth) : α :=
  (g.values.entry r c).get i

/-- The list at a place. -/
def list? (g : Grid α) (r c : Nat) : Option (Vector α g.depth) :=
  if h : r < g.rows ∧ c < g.cols then some (g.values.entry ⟨r, h.1⟩ ⟨c, h.2⟩) else none

/-- A grid without places. -/
def empty (depth : Nat) : Grid α := ⟨0, 0, depth, ⟨#[], rfl⟩⟩

/-- The number of places. -/
def size (g : Grid α) : Nat := g.rows * g.cols

/-- The lengths of the three axes. -/
def shape (g : Grid α) : List Nat := [g.rows, g.cols, g.depth]

end Grid

/-! ## Places in a grid -/

namespace Value

/-- Whether a value lies on an axis of `length` places. Only numbers can be compared with one. -/
def onAxis (v : Value) (length : Nat) : Except ArgumentFault Bool :=
  match (Value.int 0).sortsBefore? v, v.sameKey (.int 0), v.sortsBefore? (.int length) with
  | some positive, zero, some below => .ok ((positive || zero) && below)
  | _, _, _ => .error (.incomparable "<=" "int" v.kind)

/-- Whether two values are a place of a grid. The column is looked at only if the row is one. -/
def onGrid (row col : Value) (rows cols : Nat) : Except ArgumentFault Bool := do
  if ← row.onAxis rows then col.onAxis cols else return false

end Value

/-! ## The size of a grid -/

/-- The number of windows along an axis. Size, window and stride may be any integers, as long as the
stride is not zero. -/
def axisCount (size window stride : Int) : Int := max 0 ((size - window).fdiv stride + 1)

/-- The number of windows along an axis, for a window and a stride of any kind. Whole numbers are
counted with as above; doubles can be counted with as well, and all else is refused. -/
def axisCountOf (size : Int) (window stride : Value) : Except ArgumentFault Value := do
  match window.integer?, stride.integer? with
  | some w, some d =>
    if d = 0 then throw (.zeroDivisor "integer division or modulo")
    else return .int (axisCount size w d)
  | _, _ =>
    let room ← (Value.int size).minus window
    let count ← (← room.floorDiv stride).plus 1
    return if (Value.int 0).sortsBefore? count = some true then count else .int 0

/-- The numbers of rows and columns of the grid over an image of the given shape, whose entries may
be anything that reads as a whole number. -/
def gridShape (shape : List Value) (window stride : Value) :
    Except ArgumentFault (Value × Value) :=
  match shape with
  | [] => .error .shortShape
  | [rows] => do
    let _ ← rows.toInt
    throw .shortShape
  | rows :: cols :: _ => do
    let rows ← rows.toInt
    let cols ← cols.toInt
    return (← axisCountOf rows window stride, ← axisCountOf cols window stride)

end Facet
