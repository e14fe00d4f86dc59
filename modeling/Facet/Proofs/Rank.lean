import Mathlib
import Facet.Proofs.Layout
import Facet.Proofs.Recovery
import Facet.Proofs.Settings
import Facet.Proofs.Stencils

/-!
# The rank of the design matrix

A window of `n` pixels on a side has `n` offsets along each axis, so a power of `n` or more is the
same there as a sum of lower powers. The monomials with both powers less than `n` remain, and these
the window tells apart. The proof counts them as a trace: what is found from the pixels around the
centre for the coefficients of a polynomial is a projection that undoes the design matrix, and on
the diagonal it has a one for each monomial that remains. What the window cannot see are the
polynomials that vanish at all of its offsets.
-/

namespace Facet

open MvPolynomial

open scoped Matrix

variable {K : Type} [Field K]

/-! ## Rank as a trace -/

/-- If a matrix is undone by another one, then their product is a projection of the same rank, which
is its trace. -/
theorem natCast_rank_eq_trace {m n : Nat} {A : Matrix (Fin m) (Fin n) K}
    {X : Matrix (Fin n) (Fin m) K} (h : A * X * A = A) : (A.rank : K) = (X * A).trace := by
  have hprojection : IsIdempotentElem (X * A) := by
    rw [IsIdempotentElem, Matrix.mul_assoc, ← Matrix.mul_assoc A, h]
  have hrank : A.rank = (X * A).rank := by
    refine le_antisymm ?_ (Matrix.rank_mul_le_right X A)
    calc A.rank = (A * (X * A)).rank := by rw [← Matrix.mul_assoc, h]
      _ ≤ (X * A).rank := Matrix.rank_mul_le_right A (X * A)
  have hlinear : IsIdempotentElem (Matrix.toLin' (X * A)) := by
    rw [IsIdempotentElem, Module.End.mul_eq_comp, ← Matrix.toLin'_mul, hprojection]
  have hrange := (LinearMap.isProj_range_iff_isIdempotentElem (Matrix.toLin' (X * A))).2 hlinear
  rw [hrank, ← Matrix.trace_toLin'_eq, hrange.trace, Matrix.rank, Matrix.toLin'_apply']

/-! ## The rank -/

/-- The monomials of a fit that a window tells apart. -/
def Window.distinct (w : Window) (k : Order) : Finset Monomial :=
  (Monomial.upTo k.degree).toFinset.filter fun e => e.x < w.side ∧ e.y < w.side

theorem Window.mem_distinct {w : Window} {k : Order} {e : Monomial} :
    e ∈ w.distinct k ↔ e.x + e.y ≤ k.degree ∧ e.x < w.side ∧ e.y < w.side := by
  rw [distinct, Finset.mem_filter, List.mem_toFinset, Monomial.mem_upTo]

variable [CharZero K] (k : Order) (w : Window)

theorem recoveryTable_mul_designTable_diagonal (i : Fin k.terms) :
    ((recoveryTable K k w).toMatrix * (designTable K k w).toMatrix) i i =
      if (k.monomials.get i).x < w.side ∧ (k.monomials.get i).y < w.side then 1 else 0 := by
  have hdegree := (k.degree_le i).trans k.le_six
  have hx : moment w.margin _ _ = if (k.monomials.get i).x < w.side then 720 else 0 :=
    moment_self w.one_le (by omega)
  have hy : moment w.margin _ _ = if (k.monomials.get i).y < w.side then 720 else 0 :=
    moment_self w.one_le (by omega)
  rw [recoveryTable_mul_designTable, hx, hy]
  by_cases hfits : (k.monomials.get i).x < w.side ∧ (k.monomials.get i).y < w.side
  · rw [if_pos hfits, if_pos hfits.1, if_pos hfits.2]
    norm_num
  · rw [if_neg hfits]
    rcases not_and_or.1 hfits with hcol | hrow
    · rw [if_neg hcol, zero_mul, Int.cast_zero, zero_div]
    · rw [if_neg hrow, mul_zero, Int.cast_zero, zero_div]

theorem rank_designTable : (designTable K k w).toMatrix.rank = (w.distinct k).card := by
  have htrace := natCast_rank_eq_trace (designTable_mul_recoveryTable (K := K) k w)
  have hcount : ((recoveryTable K k w).toMatrix * (designTable K k w).toMatrix).trace =
      ((w.distinct k).card : K) := by
    rw [Matrix.trace]
    simp only [Matrix.diag_apply, recoveryTable_mul_designTable_diagonal]
    rw [k.sum_monomials fun e => if e.x < w.side ∧ e.y < w.side then (1 : K) else 0,
      Finset.sum_boole]
    rfl
  rw [hcount] at htrace
  exact_mod_cast htrace

theorem card_upTo : (Monomial.upTo k.degree).toFinset.card = k.terms := by
  rw [List.toFinset_card_of_nodup (Monomial.nodup_upTo k.degree), Monomial.length_upTo]
  rfl

/-- The columns are independent exactly if the window has more pixels on a side than the degree. -/
theorem linearIndependent_designTable_iff :
    LinearIndependent K (designTable K k w).toMatrix.col ↔ k.degree < w.side := by
  constructor
  · intro hindependent
    have hrank : (designTable K k w).toMatrix.rank = k.terms := by
      rw [Matrix.rank_eq_finrank_span_cols, finrank_span_eq_card hindependent, Fintype.card_fin]
    -- so all monomials remain, the highest power of the column offset among them
    have hall : w.distinct k = (Monomial.upTo k.degree).toFinset := by
      refine Finset.eq_of_subset_of_card_le (Finset.filter_subset _ _) ?_
      rw [card_upTo, ← rank_designTable (K := K), hrank]
    have hpower : (⟨k.degree, 0⟩ : Monomial) ∈ (Monomial.upTo k.degree).toFinset := by
      rw [List.mem_toFinset, Monomial.mem_upTo]
      exact le_rfl
    rw [← hall, Window.mem_distinct] at hpower
    exact hpower.2.1
  · intro hside
    rw [← Matrix.mulVec_injective_iff, ← Matrix.coe_mulVecLin, ← LinearMap.ker_eq_bot,
      LinearMap.ker_eq_bot']
    exact designTable_independent hside

/-! ## The kernel -/

/-- The offsets of the pixels are all pairs of integers up to the margin. -/
theorem Window.exists_offset_iff (x y : Int) :
    (∃ p : Fin w.area, w.offsetX p = x ∧ w.offsetY p = y) ↔ |x| ≤ w.margin ∧ |y| ≤ w.margin := by
  rw [abs_le, abs_le]
  constructor
  · rintro ⟨p, hp⟩
    exact ((w.offset_eq_iff p x y).1 hp).1
  · rintro ⟨hx, hy⟩
    exact w.exists_offset_eq hx hy

/-- A polynomial of no higher degree than the order has its Taylor coefficients at the origin. -/
theorem polynomialOf_taylorVector {P : MvPolynomial (Fin 2) K} (hP : P.totalDegree ≤ k.degree) :
    polynomialOf k (taylorVector k P 0 0) = P := by
  refine MvPolynomial.funext fun z => ?_
  have hz : z = ![z 0, z 1] := by
    funext j
    fin_cases j <;> rfl
  have htaylor := sum_taylorCoefficient hP 0 0 (z 0) (z 1)
  rw [zero_add, zero_add, ← hz, ← k.sum_monomials] at htaylor
  rw [hz, eval_polynomialOf, ← hz, ← htaylor]
  refine Finset.sum_congr rfl fun i _ => ?_
  rw [taylorVector, mul_comm]

/-- Whether a polynomial vanishes at all offsets of a window. -/
def Window.Vanishes (w : Window) (P : MvPolynomial (Fin 2) K) : Prop :=
  ∀ x y : Int, |x| ≤ w.margin ∧ |y| ≤ w.margin → eval ![(x : K), (y : K)] P = 0

omit [CharZero K] in
theorem designTable_mulVec_eq_zero_iff (c : Fin k.terms → K) :
    (designTable K k w).toMatrix *ᵥ c = 0 ↔ w.Vanishes (polynomialOf k c) := by
  constructor
  · intro hc x y hxy
    obtain ⟨p, rfl, rfl⟩ := (w.exists_offset_iff x y).2 hxy
    rw [← designTable_mulVec, hc, Pi.zero_apply]
  · intro hvanishes
    funext p
    rw [designTable_mulVec]
    exact hvanishes _ _ ((w.exists_offset_iff _ _).1 ⟨p, rfl, rfl⟩)

/-- **The rank of the design matrix.** For every order and window the design matrix is built, and
its rank over the rational numbers is the number of monomials of the order with both powers less
than the side of the window. So its columns are independent if and only if the window has more
pixels on a side than the degree. And coefficients are in its kernel exactly if their polynomial
vanishes at all offsets of the window, where every polynomial of no higher degree than the order has
coefficients and has them only once. -/
theorem rank_designMatrix (k : Order) (w : Window) :
    Design.ofValues k.value w.value = .ok ⟨k, w, designMatrix k w⟩ ∧
    let A : Matrix (Fin w.area) (Fin k.terms) ℚ :=
      Matrix.of fun p i => ((designMatrix k w).entry p i : ℚ)
    A.rank = {e : Monomial | e.x + e.y ≤ k.degree ∧ e.x < w.side ∧ e.y < w.side}.ncard ∧
    (LinearIndependent ℚ A.col ↔ k.degree < w.side) ∧
    Set.BijOn (polynomialOf k) {c | A *ᵥ c = 0}
      {P | P.totalDegree ≤ k.degree ∧ w.Vanishes P} := by
  have hbuilt : Design.ofValues k.value w.value = .ok ⟨k, w, designMatrix k w⟩ := by
    rw [Design.ofValues, Order.ofValue_value, Window.ofValue_value]
    rfl
  refine ⟨hbuilt, ?_⟩
  intro A
  have hA : A = (designTable ℚ k w).toMatrix :=
    Matrix.ext fun p i => (Table.entry_ofFn _ p i).symm
  have hdistinct : {e : Monomial | e.x + e.y ≤ k.degree ∧ e.x < w.side ∧ e.y < w.side} =
      (w.distinct k : Set Monomial) :=
    Set.ext fun e => Window.mem_distinct.symm
  rw [hA, rank_designTable, linearIndependent_designTable_iff, hdistinct, Set.ncard_coe_finset]
  refine ⟨rfl, Iff.rfl, ?_, (polynomialOf_injective k).injOn, ?_⟩
  · intro c hc
    exact ⟨totalDegree_polynomialOf_le k c, (designTable_mulVec_eq_zero_iff k w c).1 hc⟩
  · rintro P ⟨hP, hvanishes⟩
    have hpolynomial := polynomialOf_taylorVector k hP
    refine ⟨taylorVector k P 0 0, (designTable_mulVec_eq_zero_iff k w _).2 ?_, hpolynomial⟩
    rw [hpolynomial]
    exact hvanishes

end Facet
