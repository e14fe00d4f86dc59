import Mathlib
import Facet.Proofs.Decompositions

/-!
# Bounds on singular values

No singular value is greater than the root of the sum of the squared entries of the matrix. None but
zero is less than the inverse of that root for any matrix that undoes the matrix on what it reaches.
And between the least and the greatest singular value lies how much the matrix stretches any vector.
-/

namespace Facet

open scoped Matrix

variable {K : Type} [Field K] [LinearOrder K]

/-- The sum of the squares of the entries. -/
def Table.squares {m n : Nat} (a : Table K m n) : K := ∑ i, ∑ j, a.entry i j ^ 2

section Squares

variable [IsStrictOrderedRing K] {m n : Nat}

theorem Table.sq_dotProduct_mulVec_le (a : Table K m n) {u : Fin m → K} {v : Fin n → K}
    (hu : u ⬝ᵥ u = 1) (hv : v ⬝ᵥ v = 1) : (u ⬝ᵥ a.toMatrix *ᵥ v) ^ 2 ≤ a.squares := by
  have hform : u ⬝ᵥ a.toMatrix *ᵥ v = ∑ q : Fin m × Fin n, a.entry q.1 q.2 * (u q.1 * v q.2) := by
    rw [Fintype.sum_prod_type]
    simp only [dotProduct, Matrix.mulVec, Table.toMatrix_apply, Finset.mul_sum]
    refine Finset.sum_congr rfl fun i _ => Finset.sum_congr rfl fun j _ => ?_
    ring
  have hunit : ∑ q : Fin m × Fin n, (u q.1 * v q.2) ^ 2 = 1 := by
    calc ∑ q : Fin m × Fin n, (u q.1 * v q.2) ^ 2
        = ∑ i, ∑ j, u i * u i * (v j * v j) := by
          rw [Fintype.sum_prod_type]
          refine Finset.sum_congr rfl fun i _ => Finset.sum_congr rfl fun j _ => ?_
          ring
      _ = (∑ i, u i * u i) * ∑ j, v j * v j := by rw [Finset.sum_mul_sum]
      _ = 1 := by
          simp only [dotProduct] at hu hv
          rw [hu, hv, one_mul]
  have hsquares : ∑ q : Fin m × Fin n, a.entry q.1 q.2 ^ 2 = a.squares := Fintype.sum_prod_type _
  rw [hform]
  refine (Finset.sum_mul_sq_le_sq_mul_sq _ _ _).trans_eq ?_
  rw [hunit, hsquares, mul_one]

/-- A weighted mean is no less than some of the numbers. -/
theorem exists_le_weightedMean {r : Nat} (s y : Fin r → K) (hy : ∑ l, y l ^ 2 = 1) :
    ∃ l, s l ≤ ∑ i, s i * y i ^ 2 := by
  by_contra h
  push Not at h
  obtain ⟨l, -, hl⟩ : ∃ l ∈ Finset.univ, y l ^ 2 ≠ 0 := by
    refine Finset.exists_ne_zero_of_sum_ne_zero ?_
    rw [hy]
    exact one_ne_zero
  have hpos : 0 < y l ^ 2 := (sq_nonneg (y l)).lt_of_ne' hl
  have hlt : ∑ j, (∑ i, s i * y i ^ 2) * y j ^ 2 < ∑ j, s j * y j ^ 2 := by
    refine Finset.sum_lt_sum (fun j _ => ?_) ⟨l, Finset.mem_univ l, ?_⟩
    · exact mul_le_mul_of_nonneg_right (h j).le (sq_nonneg (y j))
    · exact mul_lt_mul_of_pos_right (h l) hpos
  rw [← Finset.mul_sum, hy, mul_one] at hlt
  exact lt_irrefl _ hlt

end Squares

namespace ThinSvd.Decomposes

variable {m n : Nat} {d : ThinSvd K m n} {a : Table K m n} (hd : d.Decomposes a)

include hd

theorem left_unit (l : Fin (min m n)) : d.left.toMatrixᵀ l ⬝ᵥ d.left.toMatrixᵀ l = 1 := by
  have h := congrFun (congrFun hd.left l) l
  rw [Matrix.one_apply_eq] at h
  exact h

theorem right_unit (l : Fin (min m n)) : d.right.toMatrix l ⬝ᵥ d.right.toMatrix l = 1 := by
  have h := congrFun (congrFun hd.right l) l
  rw [Matrix.one_apply_eq] at h
  exact h

theorem left_mul :
    d.left.toMatrixᵀ * a.toMatrix = Matrix.diagonal d.values.get * d.right.toMatrix := by
  rw [hd.product]
  unfold forward
  rw [← Matrix.mul_assoc, ← Matrix.mul_assoc, hd.left, Matrix.one_mul]

theorem mul_right :
    a.toMatrix * d.right.toMatrixᵀ = d.left.toMatrix * Matrix.diagonal d.values.get := by
  rw [hd.product]
  unfold forward
  rw [Matrix.mul_assoc, hd.right, Matrix.mul_one]

/-- A singular value is what the matrix makes of its directions. -/
theorem value_eq (l : Fin (min m n)) :
    d.left.toMatrixᵀ l ⬝ᵥ a.toMatrix *ᵥ d.right.toMatrix l = d.values.get l := by
  have h := congrFun (congrFun (hd.diagonal_eq d.values.get) l) l
  rw [← hd.product, Matrix.diagonal_apply_eq, Matrix.mul_assoc] at h
  exact h

theorem mulVec_right (l : Fin (min m n)) :
    a.toMatrix *ᵥ d.right.toMatrix l = d.values.get l • d.left.toMatrixᵀ l := by
  funext p
  have h := congrFun (congrFun hd.mul_right p) l
  rw [Matrix.mul_diagonal] at h
  exact h.trans (mul_comm _ _)

/-- If the columns are independent no singular value is zero. -/
theorem value_ne_zero (h : ∀ c, a.toMatrix *ᵥ c = 0 → c = 0) (l : Fin (min m n)) :
    d.values.get l ≠ 0 := by
  intro hl
  have hzero := hd.mulVec_right l
  rw [hl, zero_smul] at hzero
  have hunit := hd.right_unit l
  rw [h _ hzero, zero_dotProduct] at hunit
  exact zero_ne_one hunit

/-- The square of the length of what the matrix makes of a vector. -/
theorem mulVec_dotProduct_self (c : Fin n → K) :
    (a.toMatrix *ᵥ c) ⬝ᵥ (a.toMatrix *ᵥ c) =
      ∑ l, d.values.get l ^ 2 * (d.right.toMatrix *ᵥ c) l ^ 2 := by
  have hforward : a.toMatrix *ᵥ c =
      d.left.toMatrix *ᵥ (Matrix.diagonal d.values.get *ᵥ (d.right.toMatrix *ᵥ c)) := by
    rw [hd.product, Matrix.mulVec_mulVec, Matrix.mulVec_mulVec]
    rfl
  rw [hforward, Matrix.dotProduct_mulVec, Matrix.vecMul_mulVec, ← Matrix.dotProduct_mulVec,
    hd.left, Matrix.one_mulVec]
  refine Finset.sum_congr rfl fun l _ => ?_
  rw [Matrix.mulVec_diagonal]
  ring

/-- The directions on the right of a matrix that is no wider than high keep all lengths. -/
theorem sum_sq_right (hsides : n ≤ m) (c : Fin n → K) :
    ∑ l, (d.right.toMatrix *ᵥ c) l ^ 2 = c ⬝ᵥ c := by
  have hcomplete : d.right.toMatrixᵀ * d.right.toMatrix = 1 :=
    (Matrix.mul_eq_one_comm_of_equiv (finCongr (Nat.min_eq_right hsides))).1 hd.right
  calc ∑ l, (d.right.toMatrix *ᵥ c) l ^ 2
      = (d.right.toMatrix *ᵥ c) ⬝ᵥ (d.right.toMatrix *ᵥ c) := by
        refine Finset.sum_congr rfl fun l _ => ?_
        rw [sq]
    _ = c ⬝ᵥ c := by
        rw [Matrix.dotProduct_mulVec, Matrix.vecMul_mulVec, ← Matrix.dotProduct_mulVec, hcomplete,
          Matrix.one_mulVec]

variable [IsStrictOrderedRing K]

/-- No singular value is greater than the root of the sum of the squared entries. -/
theorem sq_value_le (l : Fin (min m n)) : d.values.get l ^ 2 ≤ a.squares := by
  have h := a.sq_dotProduct_mulVec_le (hd.left_unit l) (hd.right_unit l)
  rwa [hd.value_eq] at h

/-- No singular value but zero is less than the inverse of the root of the sum of the squared
entries of a matrix that undoes this one. -/
theorem one_le_of_outer {x : Table K n m}
    (hx : a.toMatrix * x.toMatrix * a.toMatrix = a.toMatrix) {l : Fin (min m n)}
    (hl : d.values.get l ≠ 0) : 1 ≤ d.values.get l ^ 2 * x.squares := by
  set z := d.right.toMatrix l ⬝ᵥ x.toMatrix *ᵥ d.left.toMatrixᵀ l with hz
  have hproduct : Matrix.diagonal d.values.get *
      (d.right.toMatrix * (x.toMatrix * d.left.toMatrix)) *
      Matrix.diagonal d.values.get = Matrix.diagonal d.values.get := by
    calc Matrix.diagonal d.values.get * (d.right.toMatrix * (x.toMatrix * d.left.toMatrix)) *
          Matrix.diagonal d.values.get
        = Matrix.diagonal d.values.get * d.right.toMatrix * x.toMatrix *
            (d.left.toMatrix * Matrix.diagonal d.values.get) := by
          simp only [Matrix.mul_assoc]
      _ = d.left.toMatrixᵀ * (a.toMatrix * x.toMatrix * a.toMatrix) * d.right.toMatrixᵀ := by
          rw [← hd.left_mul, ← hd.mul_right]
          simp only [Matrix.mul_assoc]
      _ = Matrix.diagonal d.values.get := by
          rw [hx, hd.product, hd.diagonal_eq]
  have hentry := congrFun (congrFun hproduct l) l
  rw [Matrix.mul_diagonal, Matrix.diagonal_mul, Matrix.diagonal_apply_eq] at hentry
  have hone : d.values.get l * z = 1 := by
    have hcancel : (d.values.get l * z) * d.values.get l = 1 * d.values.get l := by
      rw [one_mul]
      exact hentry
    exact mul_right_cancel₀ hl hcancel
  calc 1 = d.values.get l ^ 2 * z ^ 2 := by
        rw [← mul_pow, hone, one_pow]
    _ ≤ d.values.get l ^ 2 * x.squares := by
        gcongr
        exact x.sq_dotProduct_mulVec_le (hd.right_unit l) (hd.left_unit l)

/-- Some singular value stretches no more than the matrix stretches a given vector. -/
theorem exists_sq_value_le (hsides : n ≤ m) {c : Fin n → K} (hc : c ⬝ᵥ c = 1) :
    ∃ l, d.values.get l ^ 2 ≤ (a.toMatrix *ᵥ c) ⬝ᵥ (a.toMatrix *ᵥ c) := by
  rw [hd.mulVec_dotProduct_self]
  exact exists_le_weightedMean _ _ ((hd.sum_sq_right hsides c).trans hc)

/-- Some singular value stretches no less than the matrix stretches a given vector. -/
theorem exists_le_sq_value (hsides : n ≤ m) {c : Fin n → K} (hc : c ⬝ᵥ c = 1) :
    ∃ l, (a.toMatrix *ᵥ c) ⬝ᵥ (a.toMatrix *ᵥ c) ≤ d.values.get l ^ 2 := by
  obtain ⟨l, hl⟩ := exists_le_weightedMean (fun l => -d.values.get l ^ 2) _
    ((hd.sum_sq_right hsides c).trans hc)
  refine ⟨l, ?_⟩
  rw [hd.mulVec_dotProduct_self]
  simp only [neg_mul, Finset.sum_neg_distrib] at hl
  exact neg_le_neg_iff.1 hl

end ThinSvd.Decomposes
end Facet
