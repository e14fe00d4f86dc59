import Facet.Fit.Design
import Facet.Fit.Operator

/-!
# The fit that belongs to an order and a window

A model holds all that is needed to fit one window after the other: the design matrix of an order
over a window, and the operator computed from it. It depends on nothing but the two, so it is
computed once and shared. The cache keeps the models that were used last.
-/

namespace Facet

variable {α : Type} [Scalar α]

/-- The polynomial fit over a window, ready to be used. -/
structure FitModel (α : Type) where
  /-- The order of the polynomial. -/
  order : Order
  /-- The window. -/
  window : Window
  /-- The design matrix. -/
  design : Table α window.area order.terms
  /-- The operator of the fit, with a row for each monomial. -/
  operator : Table α order.terms window.area

namespace FitModel

/-- The design matrix of an order over a window. -/
def designOf (k : Order) (w : Window) : Table α w.area k.terms :=
  (designMatrix k w).map fun row => row.map Scalar.ofInt

/-- Fits a polynomial of an order over a window. -/
def build [Decomposition α] (k : Order) (w : Window) :
    Except FitFault (FitModel α × Fitted α w.area k.terms) := do
  let a : Table α w.area k.terms := designOf k w
  let fitted ← fit a
  return (⟨k, w, a, fitted.operator⟩, fitted)

/-- The number of coefficients of a descriptor. -/
def dimensions (m : FitModel α) : Nat := m.order.dimensions

/-- The operator with the lengths of its sides. -/
def matrix (m : FitModel α) : StoredMatrix α := ⟨m.order.terms, m.window.area, m.operator⟩

/-- The place of a pixel when the pixels of a window are counted row by row. -/
def pixel (w : Window) (u v : Fin w.side) : Fin w.area :=
  ⟨u.val * w.side + v.val, by simpa [extent, Window.area] using Tensor.place₂_lt u v⟩

/-- One row of the operator, laid out as the window. -/
def kernel (m : FitModel α) (i : Fin m.order.terms) : Table α m.window.side m.window.side :=
  Table.ofFn fun u v => m.operator.entry i (pixel m.window u v)

/-- The row of the operator that an index means, laid out as the window. -/
def kernelAt (m : FitModel α) (i : Int) :
    Except ArgumentFault (Table α m.window.side m.window.side) := do
  return m.kernel (← axisPlace 0 m.order.terms i)

/-- The entry of the operator that two indices mean. -/
def operatorAt (m : FitModel α) (i j : Int) : Except ArgumentFault α := do
  let row ← axisPlace 0 m.order.terms i
  let col ← axisPlace 1 m.window.area j
  return m.operator.entry row col

/-- The coefficients of the polynomial that comes nearest to the values at the pixels. -/
@[specialize] def coefficients (m : FitModel α) (values : Fin m.window.area → α) :
    Vector α m.order.terms :=
  Vector.ofFn fun i => sumOver m.window.area fun p => m.operator.entry i p * values p

/-- Fits one window, which must have the shape of the model's. -/
def fitWindow (m : FitModel α) (window : Tensor α) :
    Except ArgumentFault (Vector α m.order.terms) :=
  if h : window.shape = [m.window.side, m.window.side] then
    have size : extent window.shape = m.window.area := by simp [h, extent, Window.area]
    .ok (m.coefficients fun p => window.entries.get ⟨p.val, by rw [size]; exact p.isLt⟩)
  else .error (.windowShape m.window.side window.shape)

/-- The text of a model: what it was built for, and its monomials. -/
def text (m : FitModel α) : String :=
  "PolyFitModel(order=" ++ toString m.order.degree ++ ", window_size=" ++ toString m.window.side
    ++ ", exponents=("
    ++ String.intercalate ", " (m.order.monomials.toList.map Monomial.text) ++ "))"

end FitModel

/-! ## Sharing -/

/-- A value that several owners share. Two owners share the same value exactly if the tags are
equal; equal values may have different tags. -/
structure Shared (β : Type) where
  /-- What tells this value from others. -/
  tag : Nat
  /-- The value. -/
  value : β

/-- The models that were used last, the most recent first. -/
structure ModelCache (α : Type) where
  /-- The models. -/
  entries : List (Shared (FitModel α))

namespace ModelCache

/-- The number of models that are kept. -/
def capacity : Nat := 32

/-- A cache without models. -/
def empty : ModelCache α := ⟨[]⟩

/-- Whether a model was built for an order and a window. -/
def fits (k : Order) (w : Window) (m : Shared (FitModel α)) : Bool :=
  m.value.order = k && m.value.window = w

/-- The model for an order and a window, if it is kept. -/
def find? (c : ModelCache α) (k : Order) (w : Window) : Option (Shared (FitModel α)) :=
  c.entries.find? (fits k w)

/-- Puts a model in front. If it was kept already it only moves; otherwise the one that was not used
for longest gives way once the cache is full. -/
def touch (c : ModelCache α) (m : Shared (FitModel α)) : ModelCache α :=
  ⟨(m :: c.entries.filter fun other => !fits m.value.order m.value.window other).take capacity⟩

end ModelCache

end Facet
