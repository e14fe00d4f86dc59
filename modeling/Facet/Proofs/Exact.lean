import Mathlib
import Facet.Extraction.Extract
import Facet.Fit.Decomposition

/-!
# Exact numbers

The program is written for any `Scalar`. Over a field it computes without rounding, except that a
quotient by zero has no value. An exact number is therefore an element of the field or the mark of
what has no value, and whatever is computed from something without value has none either. So a
result is a number exactly if nothing on the way to it was divided by zero.

Sums over exact numbers are finite sums in the field, which is where the theory of the fit takes
place.
-/

namespace Facet

/-- An element of a field, or the mark of what has no value. -/
inductive Exact (K : Type) where
  /-- A number. -/
  | number (x : K)
  /-- A quotient by zero, or what is computed from one. -/
  | undefined
deriving DecidableEq

namespace Exact

variable {K : Type}

/-- Whether an exact number has a value. -/
def IsNumber (x : Exact K) : Prop := ∃ y, x = number y

@[simp] theorem isNumber_number (x : K) : IsNumber (number x) := ⟨x, rfl⟩

/-- An operation that always has a value, where both of its operands have one. -/
def lift (op : K → K → K) : Exact K → Exact K → Exact K
  | number x, number y => number (op x y)
  | _, _ => undefined

variable [Field K] [LinearOrder K]

/-- A quotient. -/
def quotient : Exact K → Exact K → Exact K
  | number x, number y => if y = 0 then undefined else number (x / y)
  | _, _ => undefined

/-- The number that a double taken apart stands for. -/
def ofBinary : Decimal.Binary → Exact K
  | .finite negative mantissa exponent =>
    number ((if negative then -1 else 1) * mantissa * 2 ^ exponent)
  | .nan | .infinite _ => undefined

instance : Scalar (Exact K) where
  zero := number 0
  one := number 1
  add := lift (· + ·)
  sub := lift (· - ·)
  mul := lift (· * ·)
  div := quotient
  ofInt n := number n
  less
    | number x, number y => x < y
    | _, _ => false
  isFinite
    | number _ => true
    | undefined => false
  single x := x
  singleOfInt n := number n
  ofDouble x := ofBinary (Decimal.Binary.ofFloat x)

theorem zero_eq : (0 : Exact K) = number 0 := rfl

@[simp] theorem number_add (x y : K) : number x + number y = number (x + y) := rfl

@[simp] theorem number_mul (x y : K) : number x * number y = number (x * y) := rfl

theorem number_div (x y : K) :
    number x / number y = if y = 0 then undefined else number (x / y) := rfl

theorem number_div_of_ne {x y : K} (hy : y ≠ 0) : number x / number y = number (x / y) := by
  rw [number_div, if_neg hy]

/-- A quotient of numbers has no value exactly if it is one by zero. -/
theorem number_div_eq_undefined_iff (x y : K) : number x / number y = undefined ↔ y = 0 := by
  rw [number_div]
  split <;> simp_all

@[simp] theorem ofInt_eq (n : Int) : (Scalar.ofInt n : Exact K) = number (n : K) := rfl

@[simp] theorem less_number (x y : K) :
    Scalar.less (number x) (number y) = decide (x < y) := rfl

end Exact

/-! ## Sums -/

theorem sumOver_congr {α : Type} [Scalar α] {m n : Nat} (h : m = n) {f : Fin m → α} {g : Fin n → α}
    (hfg : ∀ i : Fin m, f i = g (i.cast h)) : sumOver m f = sumOver n g := by
  subst h
  have : f = g := funext hfg
  rw [this]

section Numbers

variable {K : Type} [Field K] [LinearOrder K]

theorem foldl_add_number (n : Nat) (f : Fin n → K) (start : K) :
    Fin.foldl n (fun total i => total + Exact.number (f i)) (Exact.number start) =
      Exact.number (start + ∑ i, f i) := by
  induction n generalizing start with
  | zero => simp
  | succ n ih =>
    rw [Fin.foldl_succ, Exact.number_add, ih fun i => f i.succ, Fin.sum_univ_succ, add_assoc]

/-- A sum of numbers is the sum in the field. -/
theorem sumOver_number (n : Nat) (f : Fin n → K) :
    sumOver n (fun i => Exact.number (f i)) = Exact.number (∑ i, f i) := by
  unfold sumOver
  rw [Exact.zero_eq, foldl_add_number, zero_add]

end Numbers

/-! ## Tables, images and decompositions of numbers -/

variable {K : Type}

/-- A table of elements of the field as a table of exact numbers. -/
def Table.numbers {m n : Nat} (t : Table K m n) : Table (Exact K) m n :=
  Table.ofFn fun i j => .number (t.entry i j)

@[simp] theorem Table.entry_numbers {m n : Nat} (t : Table K m n) (i : Fin m) (j : Fin n) :
    t.numbers.entry i j = .number (t.entry i j) := Table.entry_ofFn _ i j

/-- An image of elements of the field as an image of exact numbers. -/
def Raster.numbers (image : Raster K) : Raster (Exact K) :=
  ⟨image.rows, image.cols, image.pixels.numbers⟩

/-- A decomposition into elements of the field as one into exact numbers. -/
def ThinSvd.numbers {m n : Nat} (d : ThinSvd K m n) : ThinSvd (Exact K) m n where
  left := d.left.numbers
  values := d.values.map .number
  right := d.right.numbers

/-! ## A decomposition of rational matrices -/

/-- The whole number whose square is a given number; zero if there is none. -/
def wholeRoot (x : ℚ) : ℚ :=
  (((List.range (x.num.toNat + 1)).find? fun r : Nat => (r : ℚ) * r = x).getD 0 : Nat)

/-- The length of a column, if it is a whole number. -/
def Table.columnLength {m n : Nat} (a : Table ℚ m n) (j : Fin n) : ℚ :=
  wholeRoot (∑ i, a.entry i j * a.entry i j)

/-- The elements of a table of exact numbers, zero where there is no value. -/
def Table.elements {m n : Nat} (a : Table (Exact ℚ) m n) : Table ℚ m n :=
  Table.ofFn fun i j => match a.entry i j with
    | .number x => x
    | .undefined => 0

/-- Takes a matrix apart column by column: the singular values are the lengths of the columns, and
the directions on the other side are those of the axes. For a matrix no wider than high whose
columns are perpendicular, nonzero and of whole length this is a singular value decomposition. -/
@[reducible]
def Decomposition.byColumns : Decomposition (Exact ℚ) where
  svd {m n} a := ThinSvd.numbers
    { left := Table.ofFn fun i l =>
        let j := l.castLE (Nat.min_le_right m n)
        a.elements.entry i j / a.elements.columnLength j
      values := Vector.ofFn fun l => a.elements.columnLength (l.castLE (Nat.min_le_right m n))
      right := Table.ofFn fun l j => if l.val = j.val then 1 else 0 }

end Facet
