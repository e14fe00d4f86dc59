import Mathlib
import Facet.Proofs.BestFits

/-!
# Singular values are unique

A matrix has many singular value decompositions: the directions can change their signs and their
order, and where a singular value repeats they can be any orthonormal basis. What a function that is
zero at zero makes of the singular values, with the same directions, is yet the same matrix for all
of them, because it is a polynomial in the matrix and its transpose. So all decompositions have the
same singular values up to order, and all lead to the same operator.
-/

namespace Facet

open scoped Matrix

variable {K : Type} [Field K]

namespace ThinSvd

variable {m n : Nat}

theorem backward_add (d : ThinSvd K m n) (f g : Fin (min m n) → K) :
    d.backward (f + g) = d.backward f + d.backward g := by
  unfold backward
  rw [← Matrix.add_mul, ← Matrix.mul_add, Matrix.diagonal_add]
  rfl

theorem backward_smul (d : ThinSvd K m n) (c : K) (f : Fin (min m n) → K) :
    d.backward (c • f) = c • d.backward f := by
  unfold backward
  rw [← Matrix.smul_mul, ← Matrix.mul_smul, Matrix.diagonal_smul]

variable [LinearOrder K]

namespace Decomposes

variable {d d' : ThinSvd K m n} {a : Table K m n}

theorem transpose_product (hd : d.Decomposes a) : a.toMatrixᵀ = d.backward d.values.get := by
  rw [hd.product, transpose_forward]

/-- The trace of a product of two such matrices is the sum of the products of their weights. -/
theorem trace_backward_mul_forward (hd : d.Decomposes a) (f g : Fin (min m n) → K) :
    (d.backward f * d.forward g).trace = ∑ l, f l * g l := by
  rw [hd.backward_mul_forward, Matrix.trace_mul_comm, ← Matrix.mul_assoc, hd.right, Matrix.one_mul,
    Matrix.trace_diagonal]
  rfl

/-- A power of the matrix multiplied by its transpose changes the weights alone. -/
theorem pow_mul_transpose (hd : d.Decomposes a) (k : Nat) :
    (a.toMatrixᵀ * a.toMatrix) ^ k * a.toMatrixᵀ =
      d.backward fun l => (d.values.get l ^ 2) ^ k * d.values.get l := by
  induction k with
  | zero =>
    simp only [pow_zero, Matrix.one_mul, one_mul]
    exact hd.transpose_product
  | succ k ih =>
    rw [pow_succ', Matrix.mul_assoc, ih, hd.transpose_product, hd.product,
      hd.backward_forward_backward]
    congr 1
    funext l
    simp only [Pi.mul_apply]
    ring

/-- A polynomial of the matrix multiplied by its transpose changes the weights alone. -/
theorem aeval_mul_transpose (hd : d.Decomposes a) (p : Polynomial K) :
    Polynomial.aeval (a.toMatrixᵀ * a.toMatrix) p * a.toMatrixᵀ =
      d.backward fun l => p.eval (d.values.get l ^ 2) * d.values.get l := by
  induction p using Polynomial.induction_on' with
  | add p q hp hq =>
    rw [map_add, Matrix.add_mul, hp, hq, ← backward_add]
    congr 1
    funext l
    simp only [Pi.add_apply, Polynomial.eval_add]
    ring
  | monomial k c =>
    rw [Polynomial.aeval_monomial, ← Algebra.smul_def, Matrix.smul_mul, hd.pow_mul_transpose,
      ← backward_smul]
    congr 1
    funext l
    simp only [Pi.smul_apply, Polynomial.eval_monomial, smul_eq_mul]
    ring

variable [IsStrictOrderedRing K]

/-- **What a function makes of the singular values does not depend on the decomposition.** -/
theorem backward_unique (hd : d.Decomposes a) (hd' : d'.Decomposes a) {f : K → K} (hf : f 0 = 0) :
    (d.backward fun l => f (d.values.get l)) = d'.backward fun l => f (d'.values.get l) := by
  classical
  -- a polynomial takes the square of every singular value `x` to `f x / x`
  let values : Finset K := Finset.univ.image d.values.get ∪ Finset.univ.image d'.values.get
  have hmem (l : Fin (min m n)) : d.values.get l ∈ values :=
    Finset.mem_union_left _ (Finset.mem_image_of_mem _ (Finset.mem_univ l))
  have hmem' (l : Fin (min m n)) : d'.values.get l ∈ values :=
    Finset.mem_union_right _ (Finset.mem_image_of_mem _ (Finset.mem_univ l))
  have hnonneg : ∀ x ∈ values, 0 ≤ x := by
    intro x hx
    rcases Finset.mem_union.1 hx with h | h
    · obtain ⟨l, -, rfl⟩ := Finset.mem_image.1 h
      exact hd.nonneg l
    · obtain ⟨l, -, rfl⟩ := Finset.mem_image.1 h
      exact hd'.nonneg l
  have hinjective : Set.InjOn (fun x : K => x ^ 2) values := by
    intro x hx y hy h
    exact (pow_left_inj₀ (hnonneg x hx) (hnonneg y hy) two_ne_zero).1 h
  let p := Lagrange.interpolate values (fun x => x ^ 2) fun x => f x / x
  have hp (x : K) (hx : x ∈ values) : p.eval (x ^ 2) * x = f x := by
    rw [Lagrange.eval_interpolate_at_node _ hinjective hx]
    by_cases h : x = 0
    · rw [h, mul_zero, hf]
    · exact div_mul_cancel₀ _ h
  have h := hd.aeval_mul_transpose p
  have h' := hd'.aeval_mul_transpose p
  simp only [hp _ (hmem _)] at h
  simp only [hp _ (hmem' _)] at h'
  rw [← h, ← h']

/-- As many singular values have a property in one decomposition as in any other, if zero has it
not. -/
theorem card_unique (hd : d.Decomposes a) (hd' : d'.Decomposes a) {P : K → Prop} [DecidablePred P]
    (hP : ¬P 0) :
    (Finset.univ.filter fun l => P (d.values.get l)).card =
      (Finset.univ.filter fun l => P (d'.values.get l)).card := by
  -- the weight of a singular value that has the property is its inverse
  let f (x : K) : K := if P x then x⁻¹ else 0
  have hsum {e : ThinSvd K m n} (he : e.Decomposes a) :
      ((e.backward fun l => f (e.values.get l)) * a.toMatrix).trace =
        ((Finset.univ.filter fun l => P (e.values.get l)).card : K) := by
    rw [he.product, he.trace_backward_mul_forward, Finset.card_filter, Nat.cast_sum]
    refine Finset.sum_congr rfl fun l _ => ?_
    by_cases h : P (e.values.get l)
    · have hne : e.values.get l ≠ 0 := fun hzero => hP (hzero ▸ h)
      rw [if_pos h, Nat.cast_one, show f (e.values.get l) = _ from if_pos h, inv_mul_cancel₀ hne]
    · rw [if_neg h, Nat.cast_zero, show f (e.values.get l) = _ from if_neg h, zero_mul]
  have hzero : f 0 = 0 := if_neg hP
  have hweights := hd.backward_unique hd' hzero
  have hcast := hsum hd
  rw [hweights, hsum hd'] at hcast
  exact (Nat.cast_injective hcast).symm

omit [Field K] [IsStrictOrderedRing K] in
theorem count_toList {r : Nat} (v : Vector K r) (x : K) :
    v.toList.count x = (Finset.univ.filter fun l => v.get l = x).card := by
  have hlist : v.toList = (List.finRange r).map v.get := by
    rw [← List.ofFn_eq_map]
    refine List.ext_getElem (by simp) fun i hi _ => ?_
    simp
  rw [hlist, List.count_eq_countP, List.countP_map, List.countP_eq_length_filter]
  rfl

/-- **Singular values are unique up to order.** -/
theorem values_perm (hd : d.Decomposes a) (hd' : d'.Decomposes a) :
    d.values.toList.Perm d'.values.toList := by
  rw [List.perm_iff_count]
  intro x
  rw [count_toList, count_toList]
  by_cases hx : x = 0
  · have hcard : (Finset.univ.filter fun l => ¬d.values.get l = 0).card =
        (Finset.univ.filter fun l => ¬d'.values.get l = 0).card := by
      refine hd.card_unique hd' (P := fun y => ¬y = 0) ?_
      exact not_not.2 rfl
    have h := Finset.card_filter_add_card_filter_not (s := Finset.univ) fun l => d.values.get l = 0
    have h' := Finset.card_filter_add_card_filter_not (s := Finset.univ) fun l => d'.values.get l = 0
    rw [hx]
    omega
  · refine hd.card_unique hd' (P := fun y => y = x) ?_
    exact Ne.symm hx

end Decomposes

/-! ## The operator does not depend on the decomposition -/

variable [IsStrictOrderedRing K]

/-- What a singular value has to exceed, as an element of the field. -/
def cutoff (d : ThinSvd K m n) : K :=
  d.values.toList.foldl max 0 * (max m n : Nat) / (2 ^ 52 : Nat)

theorem tolerance_eq_cutoff (d : ThinSvd K m n) : d.numbers.tolerance = .number d.cutoff := by
  rw [numbers_tolerance, cutoff, Nat.cast_pow, Nat.cast_ofNat]

omit [IsStrictOrderedRing K] in
theorem foldl_lesser_number (values : List K) (start : K) :
    (values.map Exact.number).foldl Scalar.lesser (Exact.number start) =
      .number (values.foldl min start) := by
  induction values generalizing start with
  | nil => rfl
  | cons x values ih =>
    have hlesser : Scalar.lesser (Exact.number start) (Exact.number x) =
        .number (min start x) := by
      rw [Scalar.lesser, Exact.less_number]
      by_cases h : x < start
      · simp [h, min_eq_right h.le]
      · simp [h, min_eq_left (not_lt.1 h)]
    rw [List.map_cons, List.foldl_cons, hlesser, ih, List.foldl_cons]

omit [IsStrictOrderedRing K] in
theorem numbers_bottom (d : ThinSvd K m n) :
    d.numbers.bottom = .number (d.values.toList.foldl min (d.values.toList.foldl max 0)) := by
  rw [bottom, numbers_top, ← Vector.foldl_toList, ThinSvd.numbers, Vector.toList_map]
  exact foldl_lesser_number _ _

theorem cutoff_nonneg (d : ThinSvd K m n) : 0 ≤ d.cutoff := by
  have htop := le_foldl_max d.values.toList 0
  unfold cutoff
  positivity

namespace Decomposes

variable {d d' : ThinSvd K m n} {a : Table K m n} (hd : d.Decomposes a)

include hd

theorem exceeds_iff (l : Fin (min m n)) : d.Exceeds l ↔ d.cutoff < d.values.get l := by
  rw [← hd.keeps_iff, keeps, tolerance_eq_cutoff, values_get_numbers, Exact.less_number,
    decide_eq_true_iff]

theorem kept_eq (l : Fin (min m n)) :
    d.kept l = if d.cutoff < d.values.get l then d.values.get l else 0 := by
  unfold kept
  by_cases h : d.Exceeds l
  · rw [if_pos h, if_pos ((hd.exceeds_iff l).1 h)]
  · rw [if_neg h, if_neg (mt (hd.exceeds_iff l).2 h)]

variable (hd' : d'.Decomposes a)

include hd'

theorem cutoff_unique : d.cutoff = d'.cutoff := by
  unfold cutoff
  rw [(hd.values_perm hd').foldl_eq]

theorem rank_unique : d.numbers.rank = d'.numbers.rank := by
  rw [hd.rank_eq, hd'.rank_eq]
  simp only [hd.exceeds_iff, hd'.exceeds_iff, ← hd.cutoff_unique hd']
  refine hd.card_unique hd' (P := fun x => d.cutoff < x) ?_
  exact not_lt.2 d.cutoff_nonneg

theorem inverse_unique : d.inverse = d'.inverse := by
  let f (x : K) : K := (if d.cutoff < x then x else 0)⁻¹
  have hf : f 0 = 0 := by
    unfold f
    rw [ite_self, inv_zero]
  have hweights : (fun l => (d.kept l)⁻¹) = fun l => f (d.values.get l) := by
    funext l
    rw [hd.kept_eq]
  have hweights' : (fun l => (d'.kept l)⁻¹) = fun l => f (d'.values.get l) := by
    funext l
    rw [hd'.kept_eq, ← hd.cutoff_unique hd']
  apply Table.toMatrix_injective
  rw [hd.toMatrix_inverse, hd'.toMatrix_inverse, hweights, hweights']
  exact hd.backward_unique hd' hf

theorem condition_unique : d.numbers.condition = d'.numbers.condition := by
  have hperm := hd.values_perm hd'
  unfold condition
  rw [numbers_top, numbers_top, numbers_bottom, numbers_bottom, hperm.foldl_eq 0, hperm.foldl_eq]

/-- **A fit depends on the matrix alone.** Two singular value decompositions of a matrix of numbers
have the same tolerance and rank, they are put together to the same operator, and the fit from
either succeeds or is refused alike. So the operator for the matrix is the same by every way to take
matrices apart. -/
theorem fit_unique :
    d.numbers.tolerance = d'.numbers.tolerance ∧ d.numbers.rank = d'.numbers.rank ∧
    d.numbers.pseudoInverse = d'.numbers.pseudoInverse ∧
    fitFrom a.numbers d.numbers = fitFrom a.numbers d'.numbers ∧
    ∀ (D D' : Decomposition (Exact K)), D.svd a.numbers = d.numbers →
      D'.svd a.numbers = d'.numbers → ∀ s s' : Session (Exact K),
        let input := ArrayLike.array (Samples.ofMatrix ⟨m, n, a.numbers⟩)
        ((@operatorOf _ _ D input).run s).1 = ((@operatorOf _ _ D' input).run s').1 := by
  have htolerance : d.numbers.tolerance = d'.numbers.tolerance := by
    rw [tolerance_eq_cutoff, tolerance_eq_cutoff, hd.cutoff_unique hd']
  have hrank := hd.rank_unique hd'
  have hoperator : d.numbers.pseudoInverse = d'.numbers.pseudoInverse := by
    rw [pseudoInverse_numbers, pseudoInverse_numbers, hd.inverse_unique hd']
  have hfit : fitFrom a.numbers d.numbers = fitFrom a.numbers d'.numbers := by
    unfold fitFrom
    rw [hrank, hoperator, hd.condition_unique hd']
  refine ⟨htolerance, hrank, hoperator, hfit, ?_⟩
  intro D D' hD hD' s s' input
  have hfits : @fit _ _ D m n a.numbers = @fit _ _ D' m n a.numbers := by
    show fitFrom a.numbers (D.svd a.numbers) = fitFrom a.numbers (D'.svd a.numbers)
    rw [hD, hD', hfit]
  rw [@operatorOf_ofMatrix _ _ D, @operatorOf_ofMatrix _ _ D', hfits]

omit hd hd' in
/-- The same matrix taken apart column by column, and with the columns in reverse order and the
directions turned about. -/
theorem fit_unique_reversed :
    let D := Decomposition.byColumns
    let D' : Decomposition (Exact ℚ) := ⟨fun b =>
      { left := Table.ofFn fun i l => .number (-1) * (D.svd b).left.entry i l.rev
        values := Vector.ofFn fun l => (D.svd b).values.get l.rev
        right := Table.ofFn fun l j => .number (-1) * (D.svd b).right.entry l.rev j }⟩
    let a : Table ℚ 3 2 := #v[#v[2, 2], #v[4, 1], #v[4, -2]]
    let d : ThinSvd ℚ 3 2 :=
      { left := #v[#v[1 / 3, 2 / 3], #v[2 / 3, 1 / 3], #v[2 / 3, -2 / 3]]
        values := #v[6, 3]
        right := #v[#v[1, 0], #v[0, 1]] }
    let d' : ThinSvd ℚ 3 2 :=
      { left := #v[#v[-2 / 3, -1 / 3], #v[-1 / 3, -2 / 3], #v[2 / 3, -2 / 3]]
        values := #v[3, 6]
        right := #v[#v[0, -1], #v[-1, 0]] }
    let input := ArrayLike.array (Samples.ofMatrix ⟨3, 2, a.numbers⟩)
    ((d.Decomposes a ∧ d'.Decomposes a) ∧
      D.svd a.numbers = d.numbers ∧ D'.svd a.numbers = d'.numbers) ∧
    d.numbers.pseudoInverse = d'.numbers.pseudoInverse ∧
    ((@operatorOf _ _ D input).run .start).1 = ((@operatorOf _ _ D' input).run .start).1 := by
  intro D D' a d d' input
  have hd : d.Decomposes a :=
    { left := by decide +kernel
      right := by decide +kernel
      nonneg := by decide +kernel
      product := by decide +kernel }
  have hd' : d'.Decomposes a :=
    { left := by decide +kernel
      right := by decide +kernel
      nonneg := by decide +kernel
      product := by decide +kernel }
  have hD : D.svd a.numbers = d.numbers := by
    have hleft : (D.svd a.numbers).left = d.numbers.left := by decide +kernel
    have hvalues : (D.svd a.numbers).values = d.numbers.values := by decide +kernel
    have hright : (D.svd a.numbers).right = d.numbers.right := by decide +kernel
    exact eq_of_parts hleft hvalues hright
  have hD' : D'.svd a.numbers = d'.numbers := by
    have hleft : (D'.svd a.numbers).left = d'.numbers.left := by decide +kernel
    have hvalues : (D'.svd a.numbers).values = d'.numbers.values := by decide +kernel
    have hright : (D'.svd a.numbers).right = d'.numbers.right := by decide +kernel
    exact eq_of_parts hleft hvalues hright
  obtain ⟨-, -, hoperator, -, hresult⟩ := hd.fit_unique hd'
  exact ⟨⟨⟨hd, hd'⟩, hD, hD'⟩, hoperator, hresult D D' hD hD' .start .start⟩

end Decomposes
end ThinSvd
end Facet
