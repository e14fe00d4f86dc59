import Facet.Extraction.Backend
import Facet.Value.Arithmetic

/-!
# Operators of any kind

An operator that is not computed by the library may have elements of any type and more than two
axes. What becomes of it depends on the backend. Correlation takes its entries in order as so many
windows, and knows only some types of elements. Multiplication takes any numbers, loose ones
included, but the result has to fit into a list for each window, so that further axes may hold
nothing but a single entry.
-/

namespace Facet

variable {α : Type} [Scalar α]

/-- Rows of numbers that are applied to a window, each with a number for each pixel. -/
structure Kernels (α : Type) (w : Window) where
  /-- The number of rows. -/
  count : Nat
  /-- The rows. -/
  rows : Table α count w.area

/-- Numbers in order, cut into as many rows as they fill. -/
def Kernels.ofEntries (w : Window) (entries : Array α) : Kernels α w where
  count := entries.size / w.area
  rows := Table.ofFn fun i p => (entries[i.val * w.area + p.val]?).getD 0

/-- The lengths of the first two axes of an operator. -/
def operatorSides (shape : List Nat) : Except ArgumentFault (Nat × Nat) :=
  match shape with
  | terms :: cols :: _ => .ok (terms, cols)
  | _ => .error .shortShape

/-! ## Correlation -/

/-- Whether a picture can be correlated with elements of a type. -/
def ElementType.isKernel : ElementType → Bool
  | .integer signed bits => signed || bits != 32
  | .real _ => true
  | _ => false

/-- An element as part of a kernel. Of integers the lowest 32 bits are taken. -/
def Sample.toKernel : Sample α → α
  | .whole n => Scalar.ofInt (Int.bmod n (Word.count 32))
  | s => s.toReal

/-- The kernels in an operator. Where there are none, their type does not matter. -/
def Samples.correlationKernels (s : Samples α) (w : Window) : Except Fault (Kernels α w) :=
  if s.array.toList.isEmpty || s.element.isKernel then
    .ok (.ofEntries w (s.array.entries.toArray.map Sample.toKernel))
  else .error .picture

/-! ## Multiplication -/

/-- An element as a factor of doubles. -/
def Sample.toFactor : Sample α → Except ArgumentFault α
  | .loose v => (Value.doubleTimes 1 v).map Scalar.ofDouble
  | s => .ok s.toReal

/-- Whether elements of a type can be multiplied with doubles. -/
def ElementType.multiplies : ElementType → Bool
  | .bool | .integer .. | .real _ | .complex _ | .loose => true
  | .bytes _ | .text _ | .instant _ | .span _ | .record .. => false

/-- Axes of length one in front, left out as long as more than two axes remain. -/
def withoutLeadingOnes : List Nat → List Nat
  | 1 :: a :: b :: rest => withoutLeadingOnes (a :: b :: rest)
  | axes => axes

/-- The rows by which the windows of one row of a grid, `cols` of them, are multiplied. -/
def Samples.productKernels (s : Samples α) (w : Window) (cols : Nat) :
    Except ArgumentFault (Kernels α w) := do
  if !s.element.multiplies then
    throw (.noElementOperation "matmul" [(ElementType.real 64).shown, s.element.shown])
  let factors ← s.array.mapExcept Sample.toFactor
  let terms := s.shape.headD 0
  let result := withoutLeadingOnes ((s.shape.drop 2).reverse ++ [cols, terms])
  if result.length = 2 then return .ofEntries w factors.entries.toArray
  else throw (.cannotSpread result [cols, terms])

/-- The rows of an operator of any kind, as a backend applies them. -/
def Backend.kernels (b : Backend) (s : Samples α) (w : Window) (cols : Nat) :
    Except Fault (Kernels α w) :=
  match b with
  | .filter => s.correlationKernels w
  | .windows => (s.productKernels w cols).mapError .argument

end Facet
