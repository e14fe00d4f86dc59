import Facet.Extraction.Grid
import Facet.Image.Samples

/-!
# Heat maps

One component of a grid of features is shown as a picture. Its values are stretched so that the
least becomes 0 and the greatest 255, cut down to whole numbers, and coloured from blue over green
to red. All of this is done at single precision, except that the factor is found in double
precision.
-/

namespace Facet

/-- A colour of three bytes. -/
structure Colour where
  /-- The blue part. -/
  blue : Nat
  /-- The green part. -/
  green : Nat
  /-- The red part. -/
  red : Nat
deriving Repr, DecidableEq

namespace Colour

/-- The colour of a level from 0 to 255. It runs along edges of the colour cube in steps of four:
dark blue to blue, blue to cyan, cyan over green to yellow, yellow to red, and red to dark red. -/
def ofLevel (level : Nat) : Colour :=
  if level < 32 then ⟨128 + 4 * level, 0, 0⟩
  else if level < 96 then ⟨255, 4 * (level - 32), 0⟩
  else if level < 159 then ⟨254 - 4 * (level - 96), 255, 2 + 4 * (level - 96)⟩
  else if level = 159 then ⟨1, 255, 254⟩
  else if level < 224 then ⟨0, 252 - 4 * (level - 160), 255⟩
  else ⟨0, 0, 252 - 4 * (level - 224)⟩

/-- The bytes of a colour, blue first. -/
def bytes (c : Colour) : List UInt8 :=
  [UInt8.ofNat c.blue, UInt8.ofNat c.green, UInt8.ofNat c.red]

end Colour

namespace HeatMap

/-- A double at single precision. -/
def single (x : Float) : Float := x.toFloat32.toFloat

/-- The values of one component, those that are not finite shown as zero. -/
def component (g : Grid Float) (i : Fin g.depth) : Table Float g.rows g.cols :=
  Table.ofFn fun r c =>
    let x := g.entry r c i
    if x.isFinite then single x else 0

/-- A linear map of values to levels. -/
structure Stretch where
  /-- The factor. -/
  scale : Float
  /-- What is added. -/
  shift : Float

/-- The difference below which two values count as the same. -/
def resolution : Float := Float.scaleB 1 (-52)

/-- The map that takes the least value to 0 and the greatest to 255. -/
def Stretch.between (least greatest : Float) : Stretch :=
  let factor := if resolution < greatest - least then 1 / (greatest - least) else 0
  let scale := single (255 * factor)
  ⟨scale, single (0 - single (least * scale))⟩

/-- The level of a value. What the map takes out of range is cut off. -/
def Stretch.level (s : Stretch) (x : Float) : Nat := (single (x * s.scale + s.shift)).toUInt8.toNat

/-- The least value of a table, or the given one if that is less. -/
def least {m n : Nat} (t : Table Float m n) (start : Float) : Float :=
  t.foldl (fun low row => row.foldl (fun low x => if x < low then x else low) low) start

/-- The greatest value of a table, or the given one if that is greater. -/
def greatest {m n : Nat} (t : Table Float m n) (start : Float) : Float :=
  t.foldl (fun high row => row.foldl (fun high x => if high < x then x else high) high) start

/-- The colours of a table of values. -/
def colours {m n : Nat} (t : Table Float m n) : Table Colour m n :=
  let start := ((t[0]?.bind fun row => row[0]?).getD 0)
  let stretch := Stretch.between (least t start) (greatest t start)
  t.map fun row => row.map fun x => Colour.ofLevel (stretch.level x)

end HeatMap

/-- A picture of colours. -/
structure ColourPicture where
  /-- The number of rows. -/
  rows : Nat
  /-- The number of columns. -/
  cols : Nat
  /-- The colours. -/
  pixels : Table Colour rows cols

/-- The heat map of a grid of features. -/
inductive HeatMap where
  /-- A picture of one component. -/
  | picture (p : ColourPicture)
  /-- Colours along axes that leave no place for any, before that of the parts of a colour. -/
  | nothing (axes : List Nat)

namespace HeatMap

/-- The lengths of the axes. -/
def shape : HeatMap → List Nat
  | .picture p => [p.rows, p.cols, 3]
  | .nothing axes => axes ++ [3]

/-- The bytes of each row. -/
def rowBytes : HeatMap → List (List UInt8)
  | .picture p => p.pixels.toList.map fun row => row.toList.flatMap Colour.bytes
  | .nothing axes => List.replicate (axes.headD 0) []

end HeatMap

/-- The heat map of a component of a grid, which may be given by a value of any kind. A truth value
is no component: it stands for all of them, once or not at all, and of that there is no picture
unless it is empty. -/
def Grid.heatMap (g : Grid Float) (component : Value) : Except Fault HeatMap := do
  if !(← (component.onAxis g.depth).mapError .argument) then
    throw (.argument (.showing [component] (.noComponent component g.depth)))
  match component with
  | .bool all =>
    if all && g.size != 0 then throw .picture
    else return .nothing [g.rows, g.cols, if all then 1 else 0, g.depth]
  | .int n =>
    if h : n.toNat < g.depth then
      return .picture ⟨g.rows, g.cols, HeatMap.colours (HeatMap.component g ⟨n.toNat, h⟩)⟩
    else throw (.argument (.showing [component] (.noComponent component g.depth)))
  | _ => throw (.argument .badIndex)

/-- The grid in an array with three axes. -/
def Samples.toGrid (s : Samples Float) : Except ArgumentFault (Grid Float) :=
  match s.array with
  | ⟨[m, n, depth], entries⟩ =>
    .ok (Grid.ofFn m n depth fun r c i => (Tensor.entry₃ entries r c i).toReal)
  | ⟨shape, _⟩ => .error (.gridRank shape)

/-- Whether elements of a type are known to be finite or not. -/
def ElementType.isTestable : ElementType → Bool
  | .loose | .text _ | .bytes _ | .record .. => false
  | _ => true

/-- The heat map of a component of an array. -/
def Samples.heatMap (s : Samples Float) (component : Value) : Except Fault HeatMap := do
  let g ← s.toGrid.mapError .argument
  match g.heatMap component with
  | .error (.argument cause) => throw (.argument cause)
  | result => if s.element.isTestable then result else throw (.argument .notTestable)

end Facet
