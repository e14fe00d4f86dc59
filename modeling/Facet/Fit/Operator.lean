import Facet.Fault
import Facet.Fit.Decomposition
import Facet.Tensor

/-!
# The operator of a least-squares fit

For a design matrix `A` the operator `X` turns the values at the pixels of a window into the
coefficients of the polynomial that comes nearest to them, and among several such polynomials into
the smallest one. It is put together from a decomposition of `A` by inverting the singular values.
Values within rounding of zero, measured against the greatest of them, count as zero and are left
out: that happens where the window has too few different offsets for the order.
-/

namespace Facet

variable {α : Type} [Scalar α]

/-- The greater of two numbers. -/
def Scalar.greater (x y : α) : α := if Scalar.less x y then y else x

/-- The lesser of two numbers. -/
def Scalar.lesser (x y : α) : α := if Scalar.less y x then y else x

namespace ThinSvd

variable {m n : Nat}

/-- The greatest singular value. -/
def top (d : ThinSvd α m n) : α := d.values.foldl Scalar.greater 0

/-- The least singular value; for a matrix without entries the greatest, zero. -/
def bottom (d : ThinSvd α m n) : α := d.values.foldl Scalar.lesser d.top

/-- How many steps of rounding there are between one and two: `2 ^ 52`. -/
def precision : Int := Nat.pow 2 52

/-- What a singular value has to exceed to count: the rounding error of the greatest one, once for
each entry of the longer side. -/
def tolerance (d : ThinSvd α m n) : α :=
  d.top * Scalar.ofInt (max m n : Nat) * (1 / Scalar.ofInt precision)

/-- Whether the singular value at a place counts. -/
def keeps (d : ThinSvd α m n) (l : Fin (min m n)) : Bool := Scalar.less d.tolerance (d.values.get l)

/-- The number of singular values that count. -/
def rank (d : ThinSvd α m n) : Nat :=
  Fin.foldl (min m n) (fun count l => if d.keeps l then count + 1 else count) 0

/-- The matrix put together from the directions that count, with their singular values inverted
and its sides exchanged. -/
@[specialize] def pseudoInverse (d : ThinSvd α m n) : Table α n m :=
  let kept : Vector Bool (min m n) := Vector.ofFn d.keeps
  let scaled : Table α n (min m n) := Table.ofFn fun i l =>
    if kept.get l then d.right.entry l i / d.values.get l else 0
  Table.ofFn fun i j => sumOver (min m n) fun l =>
    if kept.get l then scaled.entry i l * d.left.entry j l else 0

/-- How much a relative error can grow: the greatest singular value over the least. -/
def condition (d : ThinSvd α m n) : α := d.top / d.bottom

end ThinSvd

/-- The result of fitting a design matrix. -/
structure Fitted (α : Type) (m n : Nat) where
  /-- The operator, with a row for each monomial. -/
  operator : Table α n m
  /-- The number of independent monomials. -/
  rank : Nat
  /-- The condition number of the design matrix. -/
  condition : α

/-- Whether all entries of a matrix are finite. -/
@[specialize] def Table.isFinite {m n : Nat} (a : Table α m n) : Bool :=
  a.all fun row => row.all Scalar.isFinite

/-- Fits a design matrix from a decomposition of it. Nothing can be fitted to an empty matrix, one
that is not finite, or one that is zero. -/
@[specialize] def fitFrom {m n : Nat} (a : Table α m n) (d : ThinSvd α m n) :
    Except FitFault (Fitted α m n) :=
  if m = 0 ∨ n = 0 ∨ !a.isFinite then .error .unusable
  else
    let rank := d.rank
    if rank = 0 then .error .rankZero else .ok ⟨d.pseudoInverse, rank, d.condition⟩

/-- Fits a design matrix. -/
def fit [Decomposition α] {m n : Nat} (a : Table α m n) : Except FitFault (Fitted α m n) :=
  fitFrom a (Decomposition.svd a)

/-! ## Matrices of any shape -/

/-- A stored matrix with the lengths of its sides. -/
structure StoredMatrix (α : Type) where
  /-- The number of rows. -/
  rows : Nat
  /-- The number of columns. -/
  cols : Nat
  /-- The entries. -/
  entries : Table α rows cols

/-- The matrix in a tensor with two axes. -/
def StoredMatrix.ofTensor? (t : Tensor α) : Option (StoredMatrix α) :=
  match t with
  | ⟨[m, n], entries⟩ => some ⟨m, n, Table.ofFn (Tensor.entry₂ entries)⟩
  | _ => none

end Facet
