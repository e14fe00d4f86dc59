import Facet.Settings.Basic
import Facet.Table

/-!
# Monomials over a window

A polynomial of degree at most `k` in the two offsets from the centre of a window is a sum of
monomials `x ^ a * y ^ b` with `a + b ≤ k`. They are ordered by degree, and within a degree by
falling power of `x`. The design matrix has a row for each pixel of the window, row by row, and a
column for each monomial; its entries are exact integers.
-/

namespace Facet

/-- The powers of a monomial in the two offsets. -/
structure Monomial where
  /-- The power of the column offset. -/
  x : Nat
  /-- The power of the row offset. -/
  y : Nat
deriving Repr, DecidableEq

namespace Monomial

/-- The monomials of one degree, by falling power of `x`. -/
def ofDegree (n : Nat) : List Monomial := (List.range (n + 1)).map fun y => ⟨n - y, y⟩

/-- The monomials of degree at most `k`. -/
def upTo (k : Nat) : List Monomial := (List.range (k + 1)).flatMap ofDegree

/-- The value of a monomial at an offset. -/
def eval (e : Monomial) (x y : Int) : Int := Int.pow x e.x * Int.pow y e.y

/-- The powers as a pair in round brackets. -/
def text (e : Monomial) : String := "(" ++ toString e.x ++ ", " ++ toString e.y ++ ")"

end Monomial

/-- The number of monomials of degree at most `k`. -/
def termCount (k : Nat) : Nat := (k + 1) * (k + 2) / 2

theorem termCount_succ (k : Nat) : termCount (k + 1) = termCount k + (k + 2) := by
  unfold termCount
  have : (k + 1 + 1) * (k + 1 + 2) = (k + 1) * (k + 2) + 2 * (k + 2) := by
    rw [Nat.mul_comm (k + 1 + 1), ← Nat.add_mul, Nat.mul_comm]
  omega

theorem termCount_pos (k : Nat) : 0 < termCount k := by
  induction k with
  | zero => decide
  | succ k ih => rw [termCount_succ]; omega

theorem Monomial.length_upTo (k : Nat) : (Monomial.upTo k).length = termCount k := by
  induction k with
  | zero => rfl
  | succ k ih =>
    rw [termCount_succ, ← ih]
    simp [Monomial.upTo, List.range_succ (n := k + 1), Monomial.ofDegree]

namespace Order

/-- The number of monomials of a polynomial. -/
def terms (k : Order) : Nat := termCount k.degree

/-- The number of coefficients of a descriptor: all but the constant one. -/
def dimensions (k : Order) : Nat := k.terms - 1

/-- The monomial of each coefficient. -/
def monomials (k : Order) : Vector Monomial k.terms :=
  ⟨(Monomial.upTo k.degree).toArray, by simp [terms, Monomial.length_upTo]⟩

end Order

namespace Window

theorem side_pos (w : Window) : 0 < w.side := Nat.succ_pos _

/-- The column offset of a pixel from the centre, pixels counted row by row. -/
def offsetX (w : Window) (p : Nat) : Int := (p % w.side : Nat) - (w.margin : Int)

/-- The row offset of a pixel from the centre, pixels counted row by row. -/
def offsetY (w : Window) (p : Nat) : Int := (p / w.side : Nat) - (w.margin : Int)

/-- The offsets of all pixels, that of the column before that of the row. -/
def offsets (w : Window) : List (Int × Int) :=
  (List.range w.area).map fun p => (w.offsetX p, w.offsetY p)

end Window

/-- The value of every monomial at every pixel of a window. -/
def designMatrix (k : Order) (w : Window) : Table Int w.area k.terms :=
  let monomials := k.monomials
  Table.ofFn fun p i => (monomials.get i).eval (w.offsetX p) (w.offsetY p)

/-- A design matrix with what it was made for. -/
structure Design where
  /-- The order of the polynomial. -/
  order : Order
  /-- The window. -/
  window : Window
  /-- The entries. -/
  matrix : Table Int window.area order.terms

/-- The design matrix for an order and a window of any kind. -/
def Design.ofValues (order window : Value) : Except Fault Design := do
  let k ← Order.ofValue order
  let w ← Window.ofValue window
  return ⟨k, w, designMatrix k w⟩

end Facet
