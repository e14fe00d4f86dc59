import Mathlib
import Facet.Proofs.Monomials
import Facet.Proofs.Operators
import Facet.Proofs.WindowSums

/-!
# Pseudo-inverses of the design matrix

The operator of a fit is meant to be the pseudo-inverse of the design matrix in the sense of Moore
and Penrose. A window with more pixels on a side than the degree of the polynomial tells all
monomials apart: a polynomial of so small a degree that vanishes at all pixels is zero. There the
pseudo-inverse is an inverse from the left, so it finds the coefficients of a polynomial from its
values.
-/

namespace Facet

variable {K : Type} [Field K]

/-! ## Pseudo-inverses -/

/-- A table as a matrix. -/
def Table.toMatrix {m n : Nat} (t : Table K m n) : Matrix (Fin m) (Fin n) K := Matrix.of t.entry

/-- The four equations by which the pseudo-inverse of a matrix is determined. -/
structure IsPseudoInverse {m n : Nat} (a : Table K m n) (x : Table K n m) : Prop where
  /-- It is an inverse on what the matrix reaches. -/
  outer : a.toMatrix * x.toMatrix * a.toMatrix = a.toMatrix
  /-- The matrix is an inverse on what the pseudo-inverse reaches. -/
  inner : x.toMatrix * a.toMatrix * x.toMatrix = x.toMatrix
  /-- The projection onto what the matrix reaches is orthogonal. -/
  symm_left : (a.toMatrix * x.toMatrix).transpose = a.toMatrix * x.toMatrix
  /-- The projection onto what the pseudo-inverse reaches is orthogonal. -/
  symm_right : (x.toMatrix * a.toMatrix).transpose = x.toMatrix * a.toMatrix

/-- The pseudo-inverse of a matrix with independent columns is an inverse from the left. -/
theorem IsPseudoInverse.mul_eq_one {m n : Nat} {a : Table K m n} {x : Table K n m}
    (h : IsPseudoInverse a x) (hindependent : ∀ c, a.toMatrix.mulVec c = 0 → c = 0) :
    x.toMatrix * a.toMatrix = 1 := by
  have hzero : a.toMatrix * (x.toMatrix * a.toMatrix - 1) = 0 := by
    rw [Matrix.mul_sub, Matrix.mul_one, ← Matrix.mul_assoc, h.outer, sub_self]
  -- so every column of the difference is taken to zero
  have hcolumns (j : Fin n) :
      (fun i => (x.toMatrix * a.toMatrix - 1 : Matrix (Fin n) (Fin n) K) i j) = 0 := by
    refine hindependent _ ?_
    funext p
    exact congrFun (congrFun hzero p) j
  refine sub_eq_zero.1 (Matrix.ext fun i j => ?_)
  exact congrFun (hcolumns j) i

/-! ## Monomials are independent over a window -/

namespace Monomial

/-- The powers of a monomial as a function of the variable. -/
noncomputable def powers (e : Monomial) : Fin 2 →₀ Nat := Finsupp.equivFunOnFinite.symm ![e.x, e.y]

theorem powers_injective : Function.Injective powers := by
  intro e f h
  have hfun := Finsupp.equivFunOnFinite.symm.injective h
  have hx := congrFun hfun 0
  have hy := congrFun hfun 1
  rcases e with ⟨a, b⟩
  rcases f with ⟨a', b'⟩
  simp_all

end Monomial

open MvPolynomial

/-- The polynomial with the given coefficients. -/
noncomputable def polynomialOf (k : Order) (c : Fin k.terms → K) : MvPolynomial (Fin 2) K :=
  ∑ i, monomial (k.monomials.get i).powers (c i)

theorem eval_polynomialOf (k : Order) (c : Fin k.terms → K) (x y : K) :
    eval ![x, y] (polynomialOf k c) =
      ∑ i, x ^ (k.monomials.get i).x * y ^ (k.monomials.get i).y * c i := by
  rw [polynomialOf, map_sum]
  refine Finset.sum_congr rfl fun i _ => ?_
  rw [eval_monomial_pair]
  simp [Monomial.powers]
  ring

theorem totalDegree_polynomialOf_le (k : Order) (c : Fin k.terms → K) :
    (polynomialOf k c).totalDegree ≤ k.degree := by
  refine totalDegree_finsetSum_le fun i _ => (totalDegree_monomial_le _ _).trans ?_
  rw [Finsupp.sum_fintype _ _ (fun _ => rfl), Fin.sum_univ_two]
  exact k.degree_le i

theorem degreeOf_polynomialOf_le (k : Order) (c : Fin k.terms → K) (j : Fin 2) :
    (polynomialOf k c).degreeOf j ≤ k.degree :=
  (degreeOf_le_totalDegree _ j).trans (totalDegree_polynomialOf_le k c)

theorem coeff_polynomialOf (k : Order) (c : Fin k.terms → K) (i : Fin k.terms) :
    coeff (k.monomials.get i).powers (polynomialOf k c) = c i := by
  rw [polynomialOf, coeff_sum, Finset.sum_eq_single i]
  · simp
  · intro j _ hji
    rw [coeff_monomial, if_neg fun hpowers =>
      hji (k.monomials_injective (Monomial.powers_injective hpowers))]
  · intro hi
    exact absurd (Finset.mem_univ i) hi

/-- A polynomial has only one set of coefficients. -/
theorem polynomialOf_injective (k : Order) :
    Function.Injective (polynomialOf k : (Fin k.terms → K) → MvPolynomial (Fin 2) K) := by
  intro c c' h
  funext i
  rw [← coeff_polynomialOf k c, h, coeff_polynomialOf]

/-- A polynomial that is zero has no coefficients but zero. -/
theorem eq_zero_of_polynomialOf {k : Order} {c : Fin k.terms → K} (h : polynomialOf k c = 0) :
    c = 0 := by
  funext i
  rw [← coeff_polynomialOf k c, h, coeff_zero]
  rfl

/-- A row of the design matrix times coefficients is the value of the polynomial at a pixel. -/
theorem designTable_mulVec (k : Order) (w : Window) (c : Fin k.terms → K) (p : Fin w.area) :
    (designTable K k w).toMatrix.mulVec c p =
      eval ![(w.offsetX p : K), (w.offsetY p : K)] (polynomialOf k c) := by
  rw [eval_polynomialOf, Matrix.mulVec, dotProduct]
  refine Finset.sum_congr rfl fun i _ => ?_
  simp [Table.toMatrix, designTable, designMatrix, Monomial.eval_cast]

variable [CharZero K]

/-- **The monomials are independent over a window with more pixels on a side than the degree.** A
polynomial of so small a degree that vanishes on a grid of points is zero. -/
theorem designTable_independent {k : Order} {w : Window} (h : k.degree < w.side)
    (c : Fin k.terms → K) (hc : (designTable K k w).toMatrix.mulVec c = 0) : c = 0 := by
  let offset (v : Nat) : K := (v : K) - (w.margin : K)
  have hinjective : Function.Injective offset := by
    intro u v huv
    exact Nat.cast_injective (sub_left_injective huv)
  let offsets : Finset K := (Finset.range w.side).map ⟨offset, hinjective⟩
  have hcard : offsets.card = w.side := by
    rw [Finset.card_map, Finset.card_range]
  -- along each axis there are more offsets than the polynomial can have zeros
  refine eq_zero_of_polynomialOf (eq_zero_of_eval_zero_at_prod_finset _ (fun _ => offsets) ?_ ?_)
  · intro j
    rw [hcard]
    exact (degreeOf_polynomialOf_le k c j).trans_lt h
  · intro z hz
    obtain ⟨v, hv, hx⟩ := Finset.mem_map.1 (hz 0)
    obtain ⟨u, hu, hy⟩ := Finset.mem_map.1 (hz 1)
    rw [Finset.mem_range] at hu hv
    let p := FitModel.pixel w ⟨u, hu⟩ ⟨v, hv⟩
    have hcol : ((w.offsetX p : Int) : K) = z 0 := by
      rw [← hx, Window.offsetX, pixel_mod]
      simp [offset]
    have hrow : ((w.offsetY p : Int) : K) = z 1 := by
      rw [← hy, Window.offsetY, pixel_div]
      simp [offset]
    have hpoint : z = ![(w.offsetX p : K), (w.offsetY p : K)] := by
      rw [hcol, hrow]
      funext j
      fin_cases j <;> rfl
    rw [hpoint, ← designTable_mulVec]
    exact congrFun hc p

/-! ## A window that cannot tell all monomials apart -/

/-- Polynomials of degree three have ten monomials, for which a window of three by three pixels has
only nine values; it cannot tell a variable from its cube. These are the rows of the pseudo-inverse
of their design matrix, in units of a thirty-sixth. -/
def cubicRows : List (List Int) :=
  [[-4, 8, -4, 8, 20, 8, -4, 8, -4],
    [0, 0, 0, -9, 0, 9, 0, 0, 0],
    [0, -9, 0, 0, 0, 0, 0, 9, 0],
    [6, -12, 6, 6, -12, 6, 6, -12, 6],
    [9, 0, -9, 0, 0, 0, -9, 0, 9],
    [6, 6, 6, -12, -12, -12, 6, 6, 6],
    [0, 0, 0, -9, 0, 9, 0, 0, 0],
    [-9, 18, -9, 0, 0, 0, 9, -18, 9],
    [-9, 0, 9, 18, 0, -18, -9, 0, 9],
    [0, -9, 0, 0, 0, 0, 0, 9, 0]]

/-- The rows of the pseudo-inverse as a table, zero where there are none. -/
def cubicOperator {m n : Nat} : Table ℚ m n :=
  Table.ofFn fun i p => ((cubicRows.getD i.val []).getD p.val 0 : ℚ) / 36

theorem isPseudoInverse_cubicOperator :
    IsPseudoInverse (designTable ℚ ⟨3, by decide, by decide⟩ ⟨1, by decide⟩) cubicOperator where
  outer := by decide +kernel
  inner := by decide +kernel
  symm_left := by decide +kernel
  symm_right := by decide +kernel

end Facet
