import Mathlib
import Facet.Proofs.LeastSquares

/-!
# Singular value decompositions of matrices of numbers

Over a field a decomposition is a singular value decomposition of a matrix if it has orthonormal
directions on both sides, no negative singular value, and the matrix as its product. With other
weights in place of the singular values the same directions make up other matrices, and these are
multiplied by multiplying their weights. The operator has the inverses of those singular values that
count as its weights, so it is the pseudo-inverse of the matrix that has lost the others.
-/

namespace Facet

variable {K : Type} [Field K]

omit [Field K] in
@[simp] theorem Table.toMatrix_apply {m n : Nat} (t : Table K m n) (i : Fin m) (j : Fin n) :
    t.toMatrix i j = t.entry i j := rfl

omit [Field K] in
theorem Table.toMatrix_injective {m n : Nat} :
    Function.Injective (Table.toMatrix : Table K m n → Matrix (Fin m) (Fin n) K) := by
  intro s t h
  exact Table.ext_entry fun i j => congrFun (congrFun h i) j

/-- Between directions that are orthonormal to each other two diagonals are multiplied. -/
theorem diagonal_mul_diagonal {p q r s : Nat} {y : Matrix (Fin r) (Fin s) K}
    {z : Matrix (Fin s) (Fin r) K} (h : y * z = 1) (x : Matrix (Fin p) (Fin r) K)
    (t : Matrix (Fin r) (Fin q) K) (f g : Fin r → K) :
    x * Matrix.diagonal f * y * (z * Matrix.diagonal g * t) = x * Matrix.diagonal (f * g) * t := by
  calc x * Matrix.diagonal f * y * (z * Matrix.diagonal g * t)
      = x * Matrix.diagonal f * (y * z) * Matrix.diagonal g * t := by
        simp only [Matrix.mul_assoc]
    _ = x * (Matrix.diagonal f * Matrix.diagonal g) * t := by
        rw [h, Matrix.mul_one, Matrix.mul_assoc x]
    _ = x * Matrix.diagonal (f * g) * t := by
        rw [Matrix.diagonal_mul_diagonal]
        rfl

namespace ThinSvd

variable {m n : Nat}

omit [Field K] in
/-- A decomposition is given by its three parts. -/
theorem eq_of_parts {d d' : ThinSvd K m n} (hleft : d.left = d'.left)
    (hvalues : d.values = d'.values) (hright : d.right = d'.right) : d = d' := by
  rcases d with ⟨left, values, right⟩
  rcases d' with ⟨left', values', right'⟩
  cases hleft
  cases hvalues
  cases hright
  rfl

/-- The matrix with given weights in place of the singular values. -/
def forward (d : ThinSvd K m n) (f : Fin (min m n) → K) : Matrix (Fin m) (Fin n) K :=
  d.left.toMatrix * Matrix.diagonal f * d.right.toMatrix

/-- The matrix with given weights in place of the singular values and its sides exchanged. -/
def backward (d : ThinSvd K m n) (f : Fin (min m n) → K) : Matrix (Fin n) (Fin m) K :=
  d.right.toMatrix.transpose * Matrix.diagonal f * d.left.toMatrix.transpose

theorem transpose_forward (d : ThinSvd K m n) (f : Fin (min m n) → K) :
    (d.forward f).transpose = d.backward f := by
  unfold forward backward
  rw [Matrix.transpose_mul, Matrix.transpose_mul, Matrix.diagonal_transpose, Matrix.mul_assoc]

variable [LinearOrder K]

/-- What makes a matrix taken apart a singular value decomposition of it. -/
structure Decomposes (d : ThinSvd K m n) (a : Table K m n) : Prop where
  /-- The columns on the left are orthonormal. -/
  left : d.left.toMatrix.transpose * d.left.toMatrix = 1
  /-- The rows on the right are orthonormal. -/
  right : d.right.toMatrix * d.right.toMatrix.transpose = 1
  /-- No singular value is negative. -/
  nonneg : ∀ l, 0 ≤ d.values.get l
  /-- The parts make up the matrix. -/
  product : a.toMatrix = d.forward d.values.get

section Products

variable {d : ThinSvd K m n} {a : Table K m n} (hd : d.Decomposes a)

include hd

theorem Decomposes.forward_mul_backward (f g : Fin (min m n) → K) :
    d.forward f * d.backward g =
      d.left.toMatrix * Matrix.diagonal (f * g) * d.left.toMatrix.transpose :=
  diagonal_mul_diagonal hd.right _ _ f g

theorem Decomposes.backward_mul_forward (f g : Fin (min m n) → K) :
    d.backward f * d.forward g =
      d.right.toMatrix.transpose * Matrix.diagonal (f * g) * d.right.toMatrix :=
  diagonal_mul_diagonal hd.left _ _ f g

theorem Decomposes.forward_backward_forward (f g h : Fin (min m n) → K) :
    d.forward f * d.backward g * d.forward h = d.forward (f * g * h) := by
  rw [hd.forward_mul_backward]
  exact diagonal_mul_diagonal hd.left _ _ (f * g) h

theorem Decomposes.backward_forward_backward (f g h : Fin (min m n) → K) :
    d.backward f * d.forward g * d.backward h = d.backward (f * g * h) := by
  -- the transposed statement
  have htranspose := congrArg Matrix.transpose (hd.forward_backward_forward h g f)
  rw [Matrix.transpose_mul, Matrix.transpose_mul, transpose_forward, transpose_forward,
    ← transpose_forward d g, Matrix.transpose_transpose, transpose_forward,
    ← Matrix.mul_assoc] at htranspose
  rw [htranspose]
  congr 1
  ring

/-- Between the directions on the left and on the right stand the weights. -/
theorem Decomposes.diagonal_eq (f : Fin (min m n) → K) :
    d.left.toMatrix.transpose * d.forward f * d.right.toMatrix.transpose = Matrix.diagonal f := by
  unfold forward
  calc d.left.toMatrix.transpose * (d.left.toMatrix * Matrix.diagonal f * d.right.toMatrix) *
        d.right.toMatrix.transpose
      = (d.left.toMatrix.transpose * d.left.toMatrix) * Matrix.diagonal f *
          (d.right.toMatrix * d.right.toMatrix.transpose) := by
        simp only [Matrix.mul_assoc]
    _ = Matrix.diagonal f := by
        rw [hd.left, hd.right, Matrix.one_mul, Matrix.mul_one]

theorem Decomposes.forward_injective : Function.Injective d.forward := by
  intro f g h
  apply Matrix.diagonal_injective
  rw [← hd.diagonal_eq f, ← hd.diagonal_eq g, h]

end Products

/-! ## Singular values that count -/

/-- Whether a singular value exceeds the rounding error of every other, once for each entry of the
longer side. -/
def Exceeds (d : ThinSvd K m n) (l : Fin (min m n)) : Prop :=
  ∀ j, d.values.get j * (max m n : Nat) / (2 ^ 52 : Nat) < d.values.get l

instance (d : ThinSvd K m n) : DecidablePred d.Exceeds := fun l => inferInstanceAs <|
  Decidable (∀ j, d.values.get j * (max m n : Nat) / (2 ^ 52 : Nat) < d.values.get l)

theorem exceeds_def (d : ThinSvd K m n) (l : Fin (min m n)) :
    d.Exceeds l ↔ ∀ j, d.values.get j * (max m n : Nat) / 2 ^ 52 < d.values.get l := by
  unfold Exceeds
  rw [Nat.cast_pow, Nat.cast_ofNat]

/-- The singular values that count, and zero in place of the others. -/
def kept (d : ThinSvd K m n) (l : Fin (min m n)) : K := if d.Exceeds l then d.values.get l else 0

/-- The matrix without the directions whose singular values do not count. -/
def truncated (d : ThinSvd K m n) : Table K m n :=
  Table.ofFn fun i j => ∑ l, d.left.entry i l * d.kept l * d.right.entry l j

theorem toMatrix_truncated (d : ThinSvd K m n) : d.truncated.toMatrix = d.forward d.kept := by
  ext i j
  unfold truncated forward
  rw [Table.toMatrix_apply, Table.entry_ofFn, Matrix.mul_apply]
  simp only [Matrix.mul_diagonal, Table.toMatrix_apply]

omit [Field K] in
theorem foldl_max_mem (values : List K) (start : K) :
    values.foldl max start = start ∨ values.foldl max start ∈ values := by
  induction values generalizing start with
  | nil => exact .inl rfl
  | cons x values ih =>
    rw [List.foldl_cons]
    rcases ih (max start x) with h | h
    · rw [h]
      rcases max_choice start x with h' | h'
      · exact .inl h'
      · rw [h']
        exact .inr List.mem_cons_self
    · exact .inr (List.mem_cons_of_mem x h)

omit [Field K] in
theorem le_foldl_max_of_mem {values : List K} {x : K} (h : x ∈ values) (start : K) :
    x ≤ values.foldl max start := by
  induction values generalizing start with
  | nil => cases h
  | cons y values ih =>
    rw [List.foldl_cons]
    rcases List.mem_cons.1 h with rfl | h
    · exact (le_max_right start x).trans (le_foldl_max values _)
    · exact ih h _

/-- Where there are singular values, the greatest is one of them. -/
theorem Decomposes.exists_greatest {d : ThinSvd K m n} {a : Table K m n} (hd : d.Decomposes a)
    (l : Fin (min m n)) :
    ∃ j, (∀ i, d.values.get i ≤ d.values.get j) ∧
      d.values.toList.foldl max 0 = d.values.get j := by
  have hle (i : Fin (min m n)) : d.values.get i ≤ d.values.toList.foldl max 0 :=
    le_foldl_max_of_mem (by simp) 0
  rcases foldl_max_mem d.values.toList 0 with h | h
  · -- all are zero
    rw [h] at hle ⊢
    exact ⟨l, fun i => (hle i).trans (hd.nonneg l), le_antisymm (hd.nonneg l) (hle l)⟩
  · obtain ⟨j, hj, hget⟩ := List.mem_iff_getElem.1 h
    have hj' : j < min m n := by simpa using hj
    have hvalue : d.values.toList.foldl max 0 = d.values.get ⟨j, hj'⟩ := by
      rw [← hget]
      simp
    rw [hvalue] at hle
    exact ⟨⟨j, hj'⟩, hle, hvalue⟩

section Ordered

variable [IsStrictOrderedRing K]

variable {d : ThinSvd K m n} {a : Table K m n} (hd : d.Decomposes a)

include hd

theorem Decomposes.keeps_iff (l : Fin (min m n)) : d.numbers.keeps l ↔ d.Exceeds l := by
  obtain ⟨j, hj, htop⟩ := hd.exists_greatest l
  rw [keeps, numbers_tolerance, htop, values_get_numbers, Exact.less_number, decide_eq_true_iff,
    exceeds_def]
  constructor
  · intro h i
    refine lt_of_le_of_lt ?_ h
    gcongr
    exact hj i
  · intro h
    exact h j

theorem Decomposes.exceeds_pos {l : Fin (min m n)} (h : d.Exceeds l) : 0 < d.values.get l :=
  pos_of_keeps ((hd.keeps_iff l).2 h)

/-- Unless the matrix is as long as there are steps of rounding, the greatest singular value counts
if it is not zero. -/
theorem Decomposes.exists_exceeds (hsize : max m n < 2 ^ 52) {l : Fin (min m n)}
    (hl : d.values.get l ≠ 0) : ∃ j, d.Exceeds j := by
  obtain ⟨j, hj, -⟩ := hd.exists_greatest l
  have hpos : 0 < d.values.get j := ((hd.nonneg l).lt_of_ne' hl).trans_le (hj l)
  have hside : ((max m n : Nat) : K) < 2 ^ 52 := by exact_mod_cast hsize
  refine ⟨j, (d.exceeds_def j).2 fun i => ?_⟩
  calc d.values.get i * (max m n : Nat) / 2 ^ 52
      ≤ d.values.get j * (max m n : Nat) / 2 ^ 52 := by
        gcongr
        exact hj i
    _ < d.values.get j := by
        rw [div_lt_iff₀ (by positivity)]
        exact mul_lt_mul_of_pos_left hside hpos

/-! ## The operator -/

theorem Decomposes.toMatrix_inverse : d.inverse.toMatrix = d.backward fun l => (d.kept l)⁻¹ := by
  ext i j
  unfold inverse backward
  rw [Table.toMatrix_apply, Table.entry_ofFn, Matrix.mul_apply]
  refine Finset.sum_congr rfl fun l _ => ?_
  simp only [Matrix.mul_diagonal, Matrix.transpose_apply, Table.toMatrix_apply]
  unfold kept
  by_cases h : d.Exceeds l
  · rw [if_pos ((hd.keeps_iff l).2 h), if_pos h, div_eq_mul_inv]
  · rw [if_neg (mt (hd.keeps_iff l).1 h), if_neg h, inv_zero, mul_zero, zero_mul]

/-- **The operator is the pseudo-inverse of the matrix without the directions that do not
count.** -/
theorem Decomposes.isPseudoInverse_truncated : IsPseudoInverse d.truncated d.inverse := by
  have houter : d.kept * (fun l => (d.kept l)⁻¹) * d.kept = d.kept := by
    funext l
    exact mul_inv_mul_cancel (d.kept l)
  have hinner : (fun l => (d.kept l)⁻¹) * d.kept * (fun l => (d.kept l)⁻¹) =
      fun l => (d.kept l)⁻¹ := by
    funext l
    simpa using mul_inv_mul_cancel (d.kept l)⁻¹
  constructor
  · rw [toMatrix_truncated, hd.toMatrix_inverse, hd.forward_backward_forward, houter]
  · rw [toMatrix_truncated, hd.toMatrix_inverse, hd.backward_forward_backward, hinner]
  · rw [toMatrix_truncated, hd.toMatrix_inverse, hd.forward_mul_backward]
    simp only [Matrix.transpose_mul, Matrix.transpose_transpose, Matrix.diagonal_transpose,
      Matrix.mul_assoc]
  · rw [toMatrix_truncated, hd.toMatrix_inverse, hd.backward_mul_forward]
    simp only [Matrix.transpose_mul, Matrix.transpose_transpose, Matrix.diagonal_transpose,
      Matrix.mul_assoc]

/-- What the operator is an inverse for has lost no direction. -/
theorem Decomposes.exceeds_of_outer
    (h : a.toMatrix * d.inverse.toMatrix * a.toMatrix = a.toMatrix) (l : Fin (min m n))
    (hl : d.values.get l ≠ 0) : d.Exceeds l := by
  rw [hd.product, hd.toMatrix_inverse, hd.forward_backward_forward] at h
  have hweight := congrFun (hd.forward_injective h) l
  by_contra hdropped
  apply hl
  rw [← hweight, Pi.mul_apply, Pi.mul_apply, kept, if_neg hdropped, inv_zero, mul_zero, zero_mul]

omit [IsStrictOrderedRing K] in
theorem Decomposes.truncated_eq (h : ∀ l, d.values.get l ≠ 0 → d.Exceeds l) :
    d.truncated = a := by
  have hkept : d.kept = d.values.get := by
    funext l
    unfold kept
    by_cases hl : d.values.get l = 0
    · rw [hl, ite_self]
    · exact if_pos (h l hl)
  apply Table.toMatrix_injective
  rw [toMatrix_truncated, hkept, hd.product]

/-- The operator is the pseudo-inverse of the matrix itself if and only if every singular value but
zero counts. -/
theorem Decomposes.isPseudoInverse_iff :
    IsPseudoInverse a d.inverse ↔ ∀ l, d.values.get l ≠ 0 → d.Exceeds l := by
  constructor
  · intro h
    exact hd.exceeds_of_outer h.outer
  · intro h
    have htruncated := hd.isPseudoInverse_truncated
    rw [hd.truncated_eq h] at htruncated
    exact htruncated

/-! ## The number of directions that count -/

omit hd in
theorem foldl_count (r : Nat) (p : Fin r → Bool) (start : Nat) :
    Fin.foldl r (fun count l => if p l then count + 1 else count) start =
      start + ∑ l, if p l then 1 else 0 := by
  induction r generalizing start with
  | zero => simp
  | succ r ih =>
    rw [Fin.foldl_succ, ih fun l => p l.succ, Fin.sum_univ_succ]
    split <;> omega

theorem Decomposes.rank_eq : d.numbers.rank = (Finset.univ.filter d.Exceeds).card := by
  unfold rank
  rw [foldl_count, Nat.zero_add, Finset.card_filter]
  simp only [hd.keeps_iff]

theorem Decomposes.rank_eq_zero_iff (hsize : max m n < 2 ^ 52) :
    d.numbers.rank = 0 ↔ ∀ i j, a.entry i j = 0 := by
  rw [hd.rank_eq, Finset.card_eq_zero, Finset.filter_eq_empty_iff]
  constructor
  · intro h i j
    have hzero : d.values.get = 0 := by
      funext l
      by_contra hl
      obtain ⟨j, hj⟩ := hd.exists_exceeds hsize hl
      exact h (Finset.mem_univ j) hj
    have hentry : a.toMatrix i j = 0 := by
      rw [hd.product, hzero]
      unfold forward
      simp
    exact hentry
  · intro h l _ hl
    have hmatrix : a.toMatrix = d.forward 0 := by
      ext i j
      unfold forward
      simp [h i j]
    rw [hd.product] at hmatrix
    have hvalue := congrFun (hd.forward_injective hmatrix) l
    exact (hd.exceeds_pos hl).ne' hvalue

end Ordered

end ThinSvd
end Facet
