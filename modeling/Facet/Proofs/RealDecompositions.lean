import Mathlib
import Facet.Proofs.BestFits

/-!
# Real matrices have singular value decompositions

The eigenvectors of the transpose times the matrix are the directions on the right. The matrix takes
them to vectors that are perpendicular to each other, so these, brought to unit length and completed
to a basis, are the directions on the left. A matrix that is wider than high is turned on its side.
-/

namespace Facet

open scoped Matrix

theorem OrthonormalBasis.dotProduct_eq {r : Nat}
    (b : OrthonormalBasis (Fin r) ℝ (EuclideanSpace ℝ (Fin r))) (i j : Fin r) :
    (b i).ofLp ⬝ᵥ (b j).ofLp = if i = j then 1 else 0 := by
  rw [← orthonormal_iff_ite.1 b.orthonormal i j, EuclideanSpace.inner_eq_star_dotProduct,
    star_trivial, dotProduct_comm]

/-- There are orthonormal vectors that a matrix takes to perpendicular ones. -/
theorem exists_perpendicular_images {m n : Nat} (A : Matrix (Fin m) (Fin n) ℝ) :
    ∃ v : Matrix (Fin n) (Fin n) ℝ, v * vᵀ = 1 ∧
      ∀ i j, i ≠ j → (A *ᵥ v i) ⬝ᵥ (A *ᵥ v j) = 0 := by
  have hermitian := Matrix.isHermitian_conjTranspose_mul_self A
  let b := hermitian.eigenvectorBasis
  refine ⟨Matrix.of fun i => (b i).ofLp, ?_, ?_⟩
  · ext i j
    rw [Matrix.mul_apply', Matrix.one_apply]
    exact OrthonormalBasis.dotProduct_eq b i j
  · intro i j hij
    have heigen : (Aᵀ * A) *ᵥ (b j).ofLp = hermitian.eigenvalues j • (b j).ofLp :=
      hermitian.mulVec_eigenvectorBasis j
    show (A *ᵥ (b i).ofLp) ⬝ᵥ (A *ᵥ (b j).ofLp) = 0
    rw [← Matrix.vecMul_transpose, ← Matrix.dotProduct_mulVec, Matrix.mulVec_mulVec, heigen,
      dotProduct_smul, OrthonormalBasis.dotProduct_eq, if_neg hij, smul_zero]

/-- Perpendicular vectors are multiples of orthonormal ones. -/
theorem exists_orthonormal_multiples {m : Nat} {f : Fin m → Fin m → ℝ}
    (hf : ∀ i j, i ≠ j → f i ⬝ᵥ f j = 0) :
    ∃ (u : Matrix (Fin m) (Fin m) ℝ) (s : Fin m → ℝ), u * uᵀ = 1 ∧ (∀ i, 0 ≤ s i) ∧
      ∀ i, f i = s i • u i := by
  let g (i : Fin m) : EuclideanSpace ℝ (Fin m) := WithLp.toLp 2 (f i)
  have hg : Pairwise fun i j => inner ℝ (g i) (g j) = 0 := by
    intro i j hij
    rw [EuclideanSpace.inner_eq_star_dotProduct, star_trivial]
    exact hf j i hij.symm
  have hrank : Module.finrank ℝ (EuclideanSpace ℝ (Fin m)) = Fintype.card (Fin m) := by simp
  let b := InnerProductSpace.gramSchmidtOrthonormalBasis hrank g
  refine ⟨Matrix.of fun i => (b i).ofLp, fun i => ‖g i‖, ?_, fun i => norm_nonneg (g i), ?_⟩
  · ext i j
    rw [Matrix.mul_apply', Matrix.one_apply]
    exact OrthonormalBasis.dotProduct_eq b i j
  · intro i
    show f i = ‖g i‖ • (b i).ofLp
    by_cases h : g i = 0
    · have hzero : f i = 0 := congrArg WithLp.ofLp h
      rw [hzero, h, norm_zero, zero_smul]
    · have hb : b i = (‖g i‖⁻¹ : ℝ) • g i :=
        InnerProductSpace.gramSchmidtOrthonormalBasis_apply_of_orthogonal _ hg h
      have hcancel : ‖g i‖ • b i = g i := by
        rw [hb, smul_smul, mul_inv_cancel₀ (norm_ne_zero_iff.2 h), one_smul]
      exact (congrArg WithLp.ofLp hcancel).symm

/-- A matrix that is no wider than high takes orthonormal vectors to multiples of orthonormal
ones. -/
theorem exists_directions {m n : Nat} (hsides : n ≤ m) (A : Matrix (Fin m) (Fin n) ℝ) :
    ∃ (u : Matrix (Fin m) (Fin m) ℝ) (v : Matrix (Fin n) (Fin n) ℝ) (s : Fin m → ℝ),
      u * uᵀ = 1 ∧ v * vᵀ = 1 ∧ (∀ i, 0 ≤ s i) ∧
      ∀ j, A *ᵥ v j = s (j.castLE hsides) • u (j.castLE hsides) := by
  obtain ⟨v, hv, hperpendicular⟩ := exists_perpendicular_images A
  -- the images, and zero vectors up to the number of rows
  let f (i : Fin m) : Fin m → ℝ := if h : i.val < n then A *ᵥ v ⟨i.val, h⟩ else 0
  have hf : ∀ i j, i ≠ j → f i ⬝ᵥ f j = 0 := by
    intro i j hij
    by_cases hi : i.val < n
    · by_cases hj : j.val < n
      · simp only [f, dif_pos hi, dif_pos hj]
        refine hperpendicular _ _ fun h => hij (Fin.ext ?_)
        exact Fin.mk.inj h
      · simp only [f, dif_neg hj, dotProduct_zero]
    · simp only [f, dif_neg hi, zero_dotProduct]
  obtain ⟨u, s, hu, hs, hfs⟩ := exists_orthonormal_multiples hf
  refine ⟨u, v, s, hu, hv, hs, fun j => ?_⟩
  have hj : (j.castLE hsides).val < n := j.isLt
  rw [← hfs]
  exact (dif_pos hj : f (j.castLE hsides) = _).symm

/-- Some of the rows of a matrix with orthonormal rows are orthonormal. -/
theorem sum_mul_of_mul_transpose {r s t : Nat} {w : Matrix (Fin r) (Fin s) ℝ} (hw : w * wᵀ = 1)
    {c : Fin t → Fin r} (hc : Function.Injective c) (l l' : Fin t) :
    ∑ i, w (c l) i * w (c l') i = (1 : Matrix (Fin t) (Fin t) ℝ) l l' := by
  have h := congrFun (congrFun hw (c l)) (c l')
  rw [Matrix.mul_apply, Matrix.one_apply] at h
  rw [Matrix.one_apply]
  exact h.trans (if_congr hc.eq_iff rfl rfl)

namespace ThinSvd

variable {m n : Nat}

theorem exists_decomposes_of_le (hsides : n ≤ m) (a : Table ℝ m n) :
    ∃ d : ThinSvd ℝ m n, d.Decomposes a := by
  obtain ⟨u, v, s, hu, hv, hs, himages⟩ := exists_directions hsides a.toMatrix
  let place : Fin (min m n) ≃ Fin n := finCongr (Nat.min_eq_right hsides)
  let longer (l : Fin (min m n)) : Fin m := (place l).castLE hsides
  have hlonger : Function.Injective longer :=
    (Fin.castLE_injective hsides).comp place.injective
  have himage (l : Fin (min m n)) : a.toMatrix *ᵥ v (place l) = s (longer l) • u (longer l) :=
    himages (place l)
  refine ⟨⟨Table.ofFn fun i l => u (longer l) i, Vector.ofFn fun l => s (longer l),
    Table.ofFn fun l j => v (place l) j⟩, ?_, ?_, ?_, ?_⟩
  · ext l l'
    rw [Matrix.mul_apply, ← sum_mul_of_mul_transpose hu hlonger l l']
    simp only [Matrix.transpose_apply, Table.toMatrix_apply, Table.entry_ofFn, longer]
  · ext l l'
    rw [Matrix.mul_apply, ← sum_mul_of_mul_transpose hv place.injective l l']
    simp only [Matrix.transpose_apply, Table.toMatrix_apply, Table.entry_ofFn]
  · intro l
    simpa using hs (longer l)
  · have hcomplete : vᵀ * v = 1 := mul_eq_one_comm.1 hv
    ext i j
    calc a.toMatrix i j
        = (a.toMatrix * vᵀ * v) i j := by rw [Matrix.mul_assoc, hcomplete, Matrix.mul_one]
      _ = ∑ k, (a.toMatrix *ᵥ v k) i * v k j := by rw [Matrix.mul_apply]; rfl
      _ = ∑ l, (a.toMatrix *ᵥ v (place l)) i * v (place l) j := (place.sum_comp _).symm
      _ = _ := by
        unfold forward
        rw [Matrix.mul_apply]
        refine Finset.sum_congr rfl fun l _ => ?_
        rw [himage, Matrix.mul_diagonal]
        simp [mul_comm]

theorem Decomposes.transpose {d : ThinSvd ℝ m n} {a : Table ℝ m n} (hd : d.Decomposes a) :
    d.transpose.Decomposes a.transpose := by
  let place : Fin (min n m) ≃ Fin (min m n) := finCongr (Nat.min_comm n m)
  have hleft : d.left.toMatrixᵀ * d.left.toMatrixᵀᵀ = 1 := by
    rw [Matrix.transpose_transpose, hd.left]
  constructor
  · ext l l'
    rw [Matrix.mul_apply, ← sum_mul_of_mul_transpose hd.right place.injective l l']
    simp only [ThinSvd.transpose, Matrix.transpose_apply, Table.toMatrix_apply, Table.entry_ofFn]
    rfl
  · ext l l'
    rw [Matrix.mul_apply, ← sum_mul_of_mul_transpose hleft place.injective l l']
    simp only [ThinSvd.transpose, Matrix.transpose_apply, Table.toMatrix_apply, Table.entry_ofFn]
    rfl
  · intro l
    exact hd.nonneg (place l)
  · ext i j
    calc a.transpose.toMatrix i j
        = a.toMatrix j i := by simp
      _ = ∑ l, d.left.entry j l * d.values.get l * d.right.entry l i := by
        rw [hd.product, forward, Matrix.mul_apply]
        simp only [Matrix.mul_diagonal, Table.toMatrix_apply]
      _ = ∑ l, d.left.entry j (place l) * d.values.get (place l) * d.right.entry (place l) i :=
        (place.sum_comp _).symm
      _ = _ := by
        rw [forward, Matrix.mul_apply]
        refine Finset.sum_congr rfl fun l _ => ?_
        simp only [Matrix.mul_diagonal, Table.toMatrix_apply, ThinSvd.transpose, Table.entry_ofFn]
        rw [mul_right_comm, mul_comm (d.left.entry j (place l)), mul_right_comm]
        rfl

/-- **Every real matrix has a singular value decomposition.** -/
theorem exists_decomposes (a : Table ℝ m n) : ∃ d : ThinSvd ℝ m n, d.Decomposes a := by
  rcases Nat.le_total n m with h | h
  · exact exists_decomposes_of_le h a
  · obtain ⟨d, hd⟩ := exists_decomposes_of_le h a.transpose
    have hback : a.transpose.transpose = a := Table.ext_entry fun i j => by simp
    have hturned := hd.transpose
    rw [hback] at hturned
    exact ⟨d.transpose, hturned⟩

end ThinSvd

instance {m n : Nat} : Nonempty (Table ℝ m n) := ⟨Table.ofFn fun _ _ => 0⟩

/-- Takes every real matrix apart into some singular value decomposition of it. -/
@[reducible]
noncomputable def Decomposition.real : Decomposition (Exact ℝ) where
  svd a := (Classical.choose (ThinSvd.exists_decomposes (Function.invFun Table.numbers a))).numbers

/-- What is assumed of decompositions holds of this one. -/
theorem Decomposition.takesApart_real {m n : Nat} (a : Table (Exact ℝ) m n) :
    letI := Decomposition.real
    Decomposition.TakesApart a := by
  rintro b rfl
  have h := Classical.choose_spec
    (ThinSvd.exists_decomposes (Function.invFun Table.numbers b.numbers))
  refine ⟨_, rfl, ?_⟩
  convert h using 1
  exact (Function.leftInverse_invFun Table.numbers_injective b).symm

end Facet
