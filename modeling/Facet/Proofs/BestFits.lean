import Mathlib
import Facet.Proofs.Decompositions

/-!
# Best fits

The operator for a matrix turns values into the coefficients that come nearest to them, and among
all that come as near into the shortest. This holds of every pseudo-inverse: what remains of the
values is perpendicular to all that the matrix reaches, and the coefficients are perpendicular to
all that it takes to zero. A matrix has an operator unless it is empty, zero or not finite.
-/

namespace Facet

open Matrix

/-! ## The operator for a matrix -/

section Operators

variable {α : Type} [Scalar α]

theorem Table.isFinite_iff {m n : Nat} (a : Table α m n) :
    a.isFinite ↔ ∀ i j, Scalar.isFinite (a.entry i j) := by
  simp only [Table.isFinite, Vector.all_eq_true]
  constructor
  · intro h i j
    exact h i i.isLt j j.isLt
  · intro h i hi j hj
    exact h ⟨i, hi⟩ ⟨j, hj⟩

theorem Table.all_rowMajor {m n : Nat} (a : Table α m n) :
    a.rowMajor.toList.all Scalar.isFinite = a.isFinite := by
  rw [Bool.eq_iff_iff, Table.isFinite, Vector.all_eq_true_iff_forall_mem, List.all_eq_true]
  simp only [Table.rowMajor, Vector.toList_cast, Vector.mem_toList_iff, Vector.mem_flatten,
    Vector.all_eq_true_iff_forall_mem]
  constructor
  · intro h row hrow x hx
    exact h x ⟨row, hrow, hx⟩
  · rintro h x ⟨row, hrow, hx⟩
    exact h row hrow x hx

omit [Scalar α] in
theorem Vector.mapM_real {n : Nat} {f : Sample α → Except ArgumentFault α}
    (hf : ∀ x, f (.real x) = .ok x) (v : Vector α n) : (v.map Sample.real).mapM f = .ok v := by
  have hcomp : f ∘ Sample.real = fun x => pure (id x) := funext hf
  rw [Vector.mapM_map, hcomp]
  exact (Vector.mapM_pure id).trans (by rw [Vector.map_id]; rfl)

theorem ArrayLike.toNumbers_ofMatrix {m n : Nat} (a : Table α m n) :
    (ArrayLike.array (Samples.ofMatrix ⟨m, n, a⟩)).toNumbers = .ok ⟨[m, n], a.rowMajor⟩ := by
  rw [Samples.ofMatrix_eq]
  unfold ArrayLike.toNumbers Tensor.mapExcept
  dsimp only
  rw [Vector.mapM_real fun _ => rfl]
  rfl

omit [Scalar α] in
theorem StoredMatrix.ofTensor?_rowMajor {m n : Nat} (a : Table α m n) :
    StoredMatrix.ofTensor? ⟨[m, n], a.rowMajor⟩ = some ⟨m, n, a⟩ := by
  unfold StoredMatrix.ofTensor?
  refine congrArg some (congrArg (StoredMatrix.mk m n) ?_)
  refine Table.ext_entry fun i j => ?_
  rw [Table.entry_ofFn, Table.entry_rowMajor]

variable [Decomposition α]

/-- The operator for a matrix that is given as an array is the one that is fitted to it. -/
theorem operatorOf_ofMatrix {m n : Nat} (a : Table α m n) (s : Session α) :
    ((operatorOf (.array (Samples.ofMatrix ⟨m, n, a⟩))).run s).1 =
      ((fit a).mapError Fault.fit).map fun fitted => ⟨n, m, fitted.operator⟩ := by
  have hempty : extent [m, n] = 0 ↔ m = 0 ∨ n = 0 := by simp [extent]
  unfold operatorOf
  rw [ArrayLike.toNumbers_ofMatrix, Run.run_bind]
  show (ExceptT.run (if extent [m, n] = 0 ∨ (!a.rowMajor.toList.all Scalar.isFinite) = true then
    throw (.fit .unusable) >>= fun _ => _ else _ : Run α Fault (StoredMatrix α)) s).1 = _
  rw [a.all_rowMajor]
  by_cases hunusable : extent [m, n] = 0 ∨ (!a.isFinite) = true
  · have hfit : fit a = .error .unusable := by
      unfold fit fitFrom
      rw [if_pos]
      rwa [← or_assoc, ← hempty]
    rw [if_pos hunusable, hfit]
    rfl
  · rw [if_neg hunusable, StoredMatrix.ofTensor?_rowMajor, Run.run_bind]
    cases fit a with
    | error e => rfl
    | ok fitted =>
      show (ExceptT.run (if fitted.rank < n then _ >>= fun _ => _ else _ :
        Run α Fault (StoredMatrix α)) s).1 = _
      split
      · rfl
      · rfl

end Operators

/-! ## Nearest and shortest coefficients -/

variable {K : Type} [Field K] [LinearOrder K]

/-- Coefficients that come nearest to some values at the rows of a matrix, and among all that come
as near are the shortest. -/
structure Table.BestFit {m n : Nat} (a : Table K m n) (b : Fin m → K) (c : Fin n → K) : Prop where
  /-- No others come nearer. -/
  nearest : ∀ c', (a.toMatrix *ᵥ c - b) ⬝ᵥ (a.toMatrix *ᵥ c - b) ≤
    (a.toMatrix *ᵥ c' - b) ⬝ᵥ (a.toMatrix *ᵥ c' - b)
  /-- All others that come as near are longer. -/
  shortest : ∀ c', (a.toMatrix *ᵥ c' - b) ⬝ᵥ (a.toMatrix *ᵥ c' - b) ≤
    (a.toMatrix *ᵥ c - b) ⬝ᵥ (a.toMatrix *ᵥ c - b) → c' ≠ c → c ⬝ᵥ c < c' ⬝ᵥ c'

theorem dotProduct_self_nonneg [IsStrictOrderedRing K] {n : Nat} (x : Fin n → K) : 0 ≤ x ⬝ᵥ x :=
  Finset.sum_nonneg fun i _ => mul_self_nonneg (x i)

namespace IsPseudoInverse

variable {m n : Nat} {a : Table K m n} {x : Table K n m} (h : IsPseudoInverse a x)

include h

omit [LinearOrder K] in
/-- What remains of the values is perpendicular to all that the matrix reaches. -/
theorem residual_perpendicular (b : Fin m → K) (e : Fin n → K) :
    (a.toMatrix *ᵥ e) ⬝ᵥ (a.toMatrix *ᵥ (x.toMatrix *ᵥ b) - b) = 0 := by
  have hprojection : a.toMatrixᵀ * (a.toMatrix * x.toMatrix) = a.toMatrixᵀ := by
    calc a.toMatrixᵀ * (a.toMatrix * x.toMatrix)
        = a.toMatrixᵀ * (a.toMatrix * x.toMatrix)ᵀ := by rw [h.symm_left]
      _ = (a.toMatrix * x.toMatrix * a.toMatrix)ᵀ := by rw [← transpose_mul]
      _ = a.toMatrixᵀ := by rw [h.outer]
  rw [← vecMul_transpose, ← dotProduct_mulVec, mulVec_sub, mulVec_mulVec, mulVec_mulVec,
    Matrix.mul_assoc, hprojection, sub_self, dotProduct_zero]

omit [LinearOrder K] in
/-- The coefficients are perpendicular to all that the matrix takes to zero. -/
theorem coefficients_perpendicular (b : Fin m → K) {e : Fin n → K} (he : a.toMatrix *ᵥ e = 0) :
    (x.toMatrix *ᵥ b) ⬝ᵥ e = 0 := by
  have hcoefficients : x.toMatrix *ᵥ b = (x.toMatrix * a.toMatrix)ᵀ *ᵥ (x.toMatrix *ᵥ b) := by
    rw [h.symm_right, mulVec_mulVec, h.inner]
  rw [hcoefficients, mulVec_transpose, ← dotProduct_mulVec, ← mulVec_mulVec, he, mulVec_zero,
    dotProduct_zero]

omit [LinearOrder K] in
/-- The square of a distance from the values, by that from the nearest ones. -/
theorem squared_distance (b : Fin m → K) (c : Fin n → K) :
    (a.toMatrix *ᵥ c - b) ⬝ᵥ (a.toMatrix *ᵥ c - b) =
      (a.toMatrix *ᵥ (x.toMatrix *ᵥ b) - b) ⬝ᵥ (a.toMatrix *ᵥ (x.toMatrix *ᵥ b) - b) +
        (a.toMatrix *ᵥ (c - x.toMatrix *ᵥ b)) ⬝ᵥ (a.toMatrix *ᵥ (c - x.toMatrix *ᵥ b)) := by
  have hperpendicular := h.residual_perpendicular b (c - x.toMatrix *ᵥ b)
  have hsplit : a.toMatrix *ᵥ c - b =
      (a.toMatrix *ᵥ (x.toMatrix *ᵥ b) - b) + a.toMatrix *ᵥ (c - x.toMatrix *ᵥ b) := by
    rw [mulVec_sub]
    abel
  generalize a.toMatrix *ᵥ (c - x.toMatrix *ᵥ b) = u at *
  generalize a.toMatrix *ᵥ (x.toMatrix *ᵥ b) - b = r at *
  rw [hsplit, add_dotProduct, dotProduct_add, dotProduct_add, dotProduct_comm r u, hperpendicular]
  ring

variable [IsStrictOrderedRing K]

/-- **A pseudo-inverse finds the best fit.** -/
theorem bestFit (b : Fin m → K) : a.BestFit b (x.toMatrix *ᵥ b) := by
  constructor
  · intro c
    rw [h.squared_distance b c]
    exact le_add_of_nonneg_right (dotProduct_self_nonneg _)
  · intro c hc hne
    rw [h.squared_distance b c] at hc
    set e := c - x.toMatrix *ᵥ b with he
    have hreach : a.toMatrix *ᵥ e = 0 := by
      rw [← dotProduct_self_eq_zero]
      exact le_antisymm (by linarith) (dotProduct_self_nonneg _)
    have hpos : 0 < e ⬝ᵥ e := by
      refine (dotProduct_self_nonneg e).lt_of_ne' ?_
      rw [Ne, dotProduct_self_eq_zero]
      exact sub_ne_zero.2 hne
    have hc' : c = x.toMatrix *ᵥ b + e := by
      rw [he]
      abel
    have hperpendicular := h.coefficients_perpendicular b hreach
    generalize x.toMatrix *ᵥ b = r at *
    rw [hc', add_dotProduct, dotProduct_add, dotProduct_add, dotProduct_comm e r, hperpendicular]
    linarith

end IsPseudoInverse

/-! ## The operator for a matrix of exact numbers -/

section Exact

variable {m n : Nat}

omit [Field K] [LinearOrder K] in
theorem Table.exists_numbers {a : Table (Exact K) m n} (h : ∀ i j, a.entry i j ≠ .undefined) :
    ∃ b : Table K m n, a = b.numbers := by
  have hnumber (i : Fin m) (j : Fin n) : ∃ x, a.entry i j = .number x := by
    cases hentry : a.entry i j with
    | number x => exact ⟨x, rfl⟩
    | undefined => exact absurd hentry (h i j)
  choose f hf using hnumber
  refine ⟨Table.ofFn f, Table.ext_entry fun i j => ?_⟩
  rw [Table.entry_numbers, Table.entry_ofFn]
  exact hf i j

omit [Field K] [LinearOrder K] in
theorem Table.numbers_injective : Function.Injective (Table.numbers : Table K m n → _) := by
  intro a b h
  refine Table.ext_entry fun i j => ?_
  have hij := congrArg (fun t => t.entry i j) h
  simp only [Table.entry_numbers] at hij
  exact Exact.number.inj hij

omit [Field K] [LinearOrder K] in
theorem ThinSvd.numbers_injective : Function.Injective (ThinSvd.numbers : ThinSvd K m n → _) := by
  intro d d' h
  obtain ⟨hleft, hvalues, hright⟩ := ThinSvd.mk.inj h
  exact ThinSvd.eq_of_parts (Table.numbers_injective hleft)
    ((Vector.map_inj_right fun _ _ => Exact.number.inj).1 hvalues)
    (Table.numbers_injective hright)

theorem Table.isFinite_numbers (b : Table K m n) : b.numbers.isFinite = true := by
  rw [Table.isFinite_iff]
  intro i j
  rw [Table.entry_numbers]
  rfl

/-- What nothing can be fitted to: a matrix that is empty, has an entry that is no number, or is
zero. -/
def Table.Unfit (a : Table (Exact K) m n) : Prop :=
  m = 0 ∨ n = 0 ∨ (∃ i j, a.entry i j = .undefined) ∨ ∀ i j, a.entry i j = .number 0

variable [IsStrictOrderedRing K]

theorem fitFrom_numbers (b : Table K m n) (d : ThinSvd K m n) (hm : m ≠ 0) (hn : n ≠ 0)
    (hrank : d.numbers.rank ≠ 0) :
    fitFrom b.numbers d.numbers =
      .ok ⟨d.inverse.numbers, d.numbers.rank, d.numbers.condition⟩ := by
  have husable : ¬(m = 0 ∨ n = 0 ∨ (!b.numbers.isFinite) = true) := by
    rw [Table.isFinite_numbers]
    simp [hm, hn]
  unfold fitFrom
  rw [if_neg husable]
  dsimp only
  rw [if_neg hrank, ThinSvd.pseudoInverse_numbers]

variable [Decomposition (Exact K)]

/-- Whether a matrix, if it consists of numbers, is taken apart into its singular values. -/
def Decomposition.TakesApart (a : Table (Exact K) m n) : Prop :=
  ∀ b : Table K m n, a = b.numbers →
    ∃ d : ThinSvd K m n, Decomposition.svd a = d.numbers ∧ d.Decomposes b

omit [IsStrictOrderedRing K] in
theorem fit_eq_unusable {a : Table (Exact K) m n}
    (h : m = 0 ∨ n = 0 ∨ ∃ i j, a.entry i j = .undefined) : fit a = .error .unusable := by
  unfold fit fitFrom
  refine if_pos ?_
  rcases h with hm | hn | ⟨i, j, hentry⟩
  · exact .inl hm
  · exact .inr (.inl hn)
  · refine .inr (.inr ?_)
    cases hfinite : a.isFinite with
    | false => rfl
    | true =>
      have hij := (Table.isFinite_iff a).1 hfinite i j
      rw [hentry] at hij
      cases hij

theorem fit_of_unfit (hsize : max m n < 2 ^ 52) {a : Table (Exact K) m n}
    (hsvd : Decomposition.TakesApart a) (h : a.Unfit) : ∃ cause, fit a = .error cause := by
  by_cases hunusable : m = 0 ∨ n = 0 ∨ ∃ i j, a.entry i j = .undefined
  · exact ⟨_, fit_eq_unusable hunusable⟩
  · have hzero : ∀ i j, a.entry i j = .number 0 := by
      rcases h with hm | hn | hundefined | hzero
      · exact absurd (.inl hm) hunusable
      · exact absurd (.inr (.inl hn)) hunusable
      · exact absurd (.inr (.inr hundefined)) hunusable
      · exact hzero
    obtain ⟨b, rfl⟩ := Table.exists_numbers fun i j hij => hunusable (.inr (.inr ⟨i, j, hij⟩))
    obtain ⟨d, hd, hdb⟩ := hsvd b rfl
    have hrank : d.numbers.rank = 0 := by
      rw [hdb.rank_eq_zero_iff hsize]
      intro i j
      have hij := hzero i j
      rw [Table.entry_numbers] at hij
      exact Exact.number.inj hij
    refine ⟨.rankZero, ?_⟩
    unfold fit fitFrom
    rw [if_neg, hd]
    · exact if_pos hrank
    · rw [Table.isFinite_numbers]
      tauto

theorem fit_of_not_unfit (hsize : max m n < 2 ^ 52) {a : Table (Exact K) m n}
    (hsvd : Decomposition.TakesApart a) (h : ¬a.Unfit) :
    ∃ (b : Table K m n) (d : ThinSvd K m n), a = b.numbers ∧ Decomposition.svd a = d.numbers ∧
      d.Decomposes b ∧
      fit a = .ok ⟨d.inverse.numbers, d.numbers.rank, d.numbers.condition⟩ := by
  unfold Table.Unfit at h
  push Not at h
  obtain ⟨hm, hn, hnumbers, i, j, hij⟩ := h
  obtain ⟨b, rfl⟩ := Table.exists_numbers hnumbers
  obtain ⟨d, hd, hdb⟩ := hsvd b rfl
  refine ⟨b, d, rfl, hd, hdb, ?_⟩
  unfold fit
  rw [hd]
  refine fitFrom_numbers b d hm hn fun hrank => hij ?_
  rw [Table.entry_numbers, (hdb.rank_eq_zero_iff hsize).1 hrank i j]

/-- **The operator is the least-squares operator.** Let a matrix be shorter than `2 ^ 52` on both
sides, and let its decomposition, if it consists of numbers, be a singular value decomposition. Its
fit is refused as singular if and only if the matrix is empty, has an entry that is no number, or is
zero. Otherwise the operator is the pseudo-inverse of the matrix without the directions whose
singular values do not exceed the tolerance; and if no singular value but zero is lost, then the
operator takes all values to the shortest of the coefficients that come nearest to them. -/
theorem operatorOf_eq_bestFit (hsize : max m n < 2 ^ 52) (a : Table (Exact K) m n)
    (hsvd : Decomposition.TakesApart a) (s : Session (Exact K)) :
    let result := ((operatorOf (.array (Samples.ofMatrix ⟨m, n, a⟩))).run s).1
    ((∃ e, result = .error e ∧ e.kind = .singularFit) ↔ a.Unfit) ∧
    (¬a.Unfit → ∃ (b : Table K m n) (d : ThinSvd K m n) (X : Table K n m),
      a = b.numbers ∧ Decomposition.svd a = d.numbers ∧ d.Decomposes b ∧
      result = .ok ⟨n, m, X.numbers⟩ ∧ IsPseudoInverse d.truncated X ∧
      ((∀ l, d.values.get l ≠ 0 → d.Exceeds l) →
        ∀ v : Fin m → K, b.BestFit v (X.toMatrix *ᵥ v))) := by
  intro result
  have hresult : result = ((fit a).mapError Fault.fit).map fun fitted => ⟨n, m, fitted.operator⟩ :=
    operatorOf_ofMatrix a s
  have hfitted : ¬a.Unfit → ∃ (b : Table K m n) (d : ThinSvd K m n), a = b.numbers ∧
      Decomposition.svd a = d.numbers ∧ d.Decomposes b ∧
      result = .ok ⟨n, m, d.inverse.numbers⟩ := by
    intro h
    obtain ⟨b, d, hb, hd, hdb, hfit⟩ := fit_of_not_unfit hsize hsvd h
    rw [hfit] at hresult
    exact ⟨b, d, hb, hd, hdb, hresult⟩
  constructor
  · constructor
    · rintro ⟨e, he, -⟩
      by_contra h
      obtain ⟨b, d, -, -, -, hok⟩ := hfitted h
      rw [he] at hok
      cases hok
    · intro h
      obtain ⟨cause, hcause⟩ := fit_of_unfit hsize hsvd h
      rw [hcause] at hresult
      exact ⟨.fit cause, hresult, rfl⟩
  · intro h
    obtain ⟨b, d, hb, hd, hdb, hok⟩ := hfitted h
    refine ⟨b, d, d.inverse, hb, hd, hdb, hok, hdb.isPseudoInverse_truncated, fun hall v => ?_⟩
    exact (hdb.isPseudoInverse_iff.2 hall).bestFit v

/-- The columns of this matrix are perpendicular and of whole length, so its singular values are
their lengths, six and three. -/
theorem operatorOf_eq_bestFit_three_by_two :
    let := Decomposition.byColumns
    let a : Table ℚ 3 2 := #v[#v[2, 2], #v[4, 1], #v[4, -2]]
    let result := ((operatorOf (.array (Samples.ofMatrix ⟨3, 2, a.numbers⟩))).run .start).1
    (max 3 2 < 2 ^ 52 ∧ Decomposition.TakesApart a.numbers) ∧
      ∃ X : Table ℚ 2 3, result = .ok ⟨2, 3, X.numbers⟩ ∧
        ∀ v : Fin 3 → ℚ, a.BestFit v (X.toMatrix *ᵥ v) := by
  intro _ a result
  let d : ThinSvd ℚ 3 2 :=
    { left := #v[#v[1 / 3, 2 / 3], #v[2 / 3, 1 / 3], #v[2 / 3, -2 / 3]]
      values := #v[6, 3]
      right := #v[#v[1, 0], #v[0, 1]] }
  have hd : d.Decomposes a :=
    { left := by decide +kernel
      right := by decide +kernel
      nonneg := by decide +kernel
      product := by decide +kernel }
  have hsvd : Decomposition.svd a.numbers = d.numbers := by
    have hleft : (Decomposition.svd a.numbers).left = d.numbers.left := by decide +kernel
    have hvalues : (Decomposition.svd a.numbers).values = d.numbers.values := by decide +kernel
    have hright : (Decomposition.svd a.numbers).right = d.numbers.right := by decide +kernel
    exact ThinSvd.eq_of_parts hleft hvalues hright
  have htakes : Decomposition.TakesApart a.numbers := by
    intro b hb
    rw [← Table.numbers_injective hb]
    exact ⟨d, hsvd, hd⟩
  have hfit : ¬a.numbers.Unfit := by
    rintro (h | h | ⟨i, j, h⟩ | h)
    · cases h
    · cases h
    · rw [Table.entry_numbers] at h
      cases h
    · have hfirst := h 0 0
      rw [Table.entry_numbers] at hfirst
      exact absurd (Exact.number.inj hfirst) (by decide +kernel)
  obtain ⟨-, hoperator⟩ := operatorOf_eq_bestFit (by decide) a.numbers htakes .start
  obtain ⟨b, d', X, hb, hd', -, hX, -, hbest⟩ := hoperator hfit
  obtain rfl := Table.numbers_injective hb
  obtain rfl := ThinSvd.numbers_injective (hsvd.symm.trans hd')
  exact ⟨⟨by decide, htakes⟩, X, hX, hbest (by decide +kernel)⟩

end Exact

end Facet
