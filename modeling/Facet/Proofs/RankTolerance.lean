import Mathlib
import Facet.Proofs.RealDecompositions
import Facet.Proofs.Stencils

/-!
# What the tolerance costs

The tolerance for the rank of a design matrix grows with the square of the side of the window and
with its greatest singular value, so for high orders it grows faster than the least singular value.
For windows that are small enough for their order nothing but zeros is lost, and the operator is the
pseudo-inverse of the design matrix. For large windows the least singular value is lost although the
columns are independent, and then the operator does not recover every polynomial.
-/

namespace Facet

open scoped Matrix

/-! ## The sizes of design matrices -/

namespace Order

theorem terms_le (k : Order) : k.terms ≤ 28 := by
  have hall : ∀ degree ≤ 6, termCount degree ≤ 28 := by decide
  exact hall k.degree k.le_six

theorem terms_le_area {k : Order} {w : Window} (h : k.degree < w.side) : k.terms ≤ w.area := by
  calc k.terms ≤ (k.degree + 1) * (k.degree + 1) := by
        refine Nat.div_le_of_le_mul ?_
        nlinarith
    _ ≤ w.area := Nat.mul_le_mul h h

/-- The tolerance of a window of less than `2 ^ 26` pixels on a side is a proper fraction. -/
theorem max_area_terms_lt (k : Order) {w : Window} (hside : w.side < 2 ^ 26) :
    max w.area k.terms < 2 ^ 52 := by
  have harea : w.area < 2 ^ 52 := by
    rw [show (2 : Nat) ^ 52 = 2 ^ 26 * 2 ^ 26 by decide]
    exact Nat.mul_lt_mul'' hside hside
  have hterms := k.terms_le
  exact max_lt harea (by omega)

end Order

/-- No value of a monomial is greater than the power of the margin. -/
theorem Window.sq_eval_le (w : Window) {k : Order} {e : Monomial} (he : e.x + e.y ≤ k.degree)
    (p : Fin w.area) :
    e.eval (w.offsetX p) (w.offsetY p) ^ 2 ≤ ((w.margin : Int) ^ 2) ^ k.degree := by
  have hmargin : 1 ≤ (w.margin : Int) ^ 2 := by
    have := w.one_le
    exact one_le_pow₀ (by omega)
  have hoffset {x : Nat} (hx : x < w.side) :
      ((x : Int) - (w.margin : Int)) ^ 2 ≤ (w.margin : Int) ^ 2 := by
    unfold Window.side at hx
    refine sq_le_sq' ?_ ?_
    · omega
    · omega
  have hcol : w.offsetX p ^ 2 ≤ (w.margin : Int) ^ 2 := hoffset (Nat.mod_lt _ w.side_pos)
  have hrow : w.offsetY p ^ 2 ≤ (w.margin : Int) ^ 2 := hoffset (Nat.div_lt_of_lt_mul p.isLt)
  calc e.eval (w.offsetX p) (w.offsetY p) ^ 2
      = (w.offsetX p ^ 2) ^ e.x * (w.offsetY p ^ 2) ^ e.y := by
        have heval : e.eval (w.offsetX p) (w.offsetY p) =
            w.offsetX p ^ e.x * w.offsetY p ^ e.y := rfl
        rw [heval]
        ring
    _ ≤ ((w.margin : Int) ^ 2) ^ e.x * ((w.margin : Int) ^ 2) ^ e.y := by gcongr
    _ = ((w.margin : Int) ^ 2) ^ (e.x + e.y) := (pow_add _ _ _).symm
    _ ≤ ((w.margin : Int) ^ 2) ^ k.degree := pow_le_pow_right₀ hmargin he

variable {K : Type} [Field K] [LinearOrder K] [IsStrictOrderedRing K]

theorem squares_designTable_le (k : Order) (w : Window) :
    (designTable K k w).squares ≤ ((w.area * (k.terms * (w.margin ^ 2) ^ k.degree) : Nat) : K) := by
  unfold Table.squares
  calc ∑ p, ∑ i, (designTable K k w).entry p i ^ 2
      ≤ ∑ _p : Fin w.area, ∑ _i : Fin k.terms, (((w.margin ^ 2) ^ k.degree : Nat) : K) := by
        refine Finset.sum_le_sum fun p _ => Finset.sum_le_sum fun i _ => ?_
        rw [entry_designTable]
        exact_mod_cast w.sq_eval_le (k.degree_le i) p
    _ = _ := by
        rw [Finset.sum_const, Finset.sum_const, Finset.card_univ, Finset.card_univ,
          Fintype.card_fin, Fintype.card_fin, nsmul_eq_mul, nsmul_eq_mul]
        push_cast
        rfl

/-! ## Windows that lose nothing -/

/-- The bound on the greatest singular value, times the tolerance, is less than that on the least. -/
theorem tolerance_bound {k : Order} {w : Window}
    (h : w.side ^ (k.degree + 3) ≤ 2 ^ (47 + k.degree)) :
    36 * (w.area * (k.terms * (w.margin ^ 2) ^ k.degree)) * max w.area k.terms ^ 2 < 2 ^ 104 := by
  have hterms := k.terms_le
  have hdegree := k.le_six
  rcases Nat.lt_or_ge w.margin 3 with hsmall | hlarge
  · have hside : w.side ≤ 5 := by
      unfold Window.side
      omega
    have harea : w.area ≤ 25 := Nat.mul_le_mul hside hside
    have hpower : (w.margin ^ 2) ^ k.degree ≤ 4 ^ 6 := by
      have hsquare : w.margin ^ 2 ≤ 4 := Nat.pow_le_pow_left (show w.margin ≤ 2 by omega) 2
      exact (Nat.pow_le_pow_left hsquare _).trans (Nat.pow_le_pow_right (by decide) hdegree)
    calc 36 * (w.area * (k.terms * (w.margin ^ 2) ^ k.degree)) * max w.area k.terms ^ 2
        ≤ 36 * (25 * (28 * 4 ^ 6)) * 28 ^ 2 := by
          gcongr
          exact max_le (harea.trans (by decide)) hterms
      _ < 2 ^ 104 := by decide
  · have hmax : max w.area k.terms = w.area := by
      refine max_eq_left (hterms.trans ?_)
      have hside : 7 ≤ w.side := by
        unfold Window.side
        omega
      exact (show 28 ≤ 7 * 7 by decide).trans (Nat.mul_le_mul hside hside)
    have hmargin : 2 * w.margin ≤ w.side := Nat.le_succ _
    have hscaled : 36 * (w.area * (k.terms * (w.margin ^ 2) ^ k.degree)) * w.area ^ 2 *
        (2 ^ 2) ^ k.degree < 2 ^ 104 * (2 ^ 2) ^ k.degree := by
      calc 36 * (w.area * (k.terms * (w.margin ^ 2) ^ k.degree)) * w.area ^ 2 * (2 ^ 2) ^ k.degree
          = 36 * k.terms * w.side ^ 6 * ((2 * w.margin) ^ 2) ^ k.degree := by
            unfold Window.area
            ring
        _ ≤ 36 * 28 * w.side ^ 6 * (w.side ^ 2) ^ k.degree := by gcongr
        _ = 36 * 28 * (w.side ^ (k.degree + 3)) ^ 2 := by ring
        _ ≤ 36 * 28 * (2 ^ (47 + k.degree)) ^ 2 := by gcongr
        _ < 2 ^ 104 * (2 ^ 2) ^ k.degree := by
            have hpos : 0 < (2 ^ 2) ^ k.degree := by positivity
            have hsplit : (2 ^ (47 + k.degree)) ^ 2 = 2 ^ 94 * (2 ^ 2) ^ k.degree := by
              rw [← pow_mul, ← pow_mul, ← pow_add]
              congr 1
              ring
            rw [hsplit]
            omega
    rw [hmax]
    exact lt_of_mul_lt_mul_right hscaled (Nat.zero_le _)

/-- **Small windows lose nothing.** -/
theorem exceeds_of_side_le {k : Order} {w : Window} {d : ThinSvd K w.area k.terms}
    (hd : d.Decomposes (designTable K k w)) (h : w.side ^ (k.degree + 3) ≤ 2 ^ (47 + k.degree))
    {l : Fin (min w.area k.terms)} (hl : d.values.get l ≠ 0) : d.Exceeds l := by
  refine (d.exceeds_def l).2 fun j => ?_
  have hbound : (36 : K) * ((w.area * (k.terms * (w.margin ^ 2) ^ k.degree) : Nat) : K) *
      (max w.area k.terms : Nat) ^ 2 < 2 ^ 104 := by
    exact_mod_cast tolerance_bound h
  have htop := (hd.sq_value_le j).trans (squares_designTable_le k w)
  have hleast : 1 ≤ d.values.get l ^ 2 * 36 := by
    refine (hd.one_le_of_outer (designTable_mul_recoveryTable k w) hl).trans ?_
    gcongr
    exact squares_recoveryTable_le k w
  refine lt_of_pow_lt_pow_left₀ 2 (hd.nonneg l) ?_
  rw [div_pow, mul_pow, div_lt_iff₀ (by positivity)]
  calc d.values.get j ^ 2 * (max w.area k.terms : Nat) ^ 2
      ≤ ((w.area * (k.terms * (w.margin ^ 2) ^ k.degree) : Nat) : K) *
          (max w.area k.terms : Nat) ^ 2 := by gcongr
    _ < 2 ^ 104 / 36 := by
        rw [lt_div_iff₀ (by norm_num)]
        linarith
    _ ≤ d.values.get l ^ 2 * (2 ^ 52) ^ 2 := by
        rw [div_le_iff₀ (by norm_num)]
        linarith

/-! ## Windows that lose the least singular value -/

omit [LinearOrder K] [IsStrictOrderedRing K] in
/-- The square of the length of a column of the design matrix. -/
theorem column_dotProduct_self {k : Order} {w : Window} {i : Fin k.terms} {e : Monomial}
    (hi : k.monomials.get i = e) :
    ((designTable K k w).toMatrix *ᵥ Pi.single i 1) ⬝ᵥ
        ((designTable K k w).toMatrix *ᵥ Pi.single i 1) =
      (((∑ v ∈ Finset.range (2 * w.margin + 1), (((v : Int) - (w.margin : Int)) ^ e.x) ^ 2) *
        ∑ u ∈ Finset.range (2 * w.margin + 1), (((u : Int) - (w.margin : Int)) ^ e.y) ^ 2 : Int) :
          K) := by
  rw [← sum_pixels_mul w (fun x => (x ^ e.x) ^ 2) fun y => (y ^ e.y) ^ 2, Int.cast_sum,
    Matrix.mulVec_single_one]
  refine Finset.sum_congr rfl fun p _ => ?_
  show (designTable K k w).entry p i * (designTable K k w).entry p i = _
  have heval : e.eval (w.offsetX p) (w.offsetY p) = w.offsetX p ^ e.x * w.offsetY p ^ e.y := rfl
  rw [entry_designTable, hi, heval, ← mul_pow, ← Int.cast_mul, sq]

theorem le_sum_offsets (margin n : Nat) (h : 1 ≤ margin) :
    2 * ((margin : Int) ^ n) ^ 2 ≤
      ∑ v ∈ Finset.range (2 * margin + 1), (((v : Int) - (margin : Int)) ^ n) ^ 2 := by
  obtain ⟨r, rfl⟩ := Nat.exists_eq_add_of_le' h
  -- the first and the last offset
  have hfirst : ((((0 : Nat) : Int) - ((r + 1 : Nat) : Int)) ^ n) ^ 2 =
      (((r + 1 : Nat) : Int) ^ n) ^ 2 := by
    rw [Nat.cast_zero, zero_sub, ← pow_mul, ← pow_mul, Even.neg_pow (Nat.even_mul.2 (.inr even_two))]
  have hlast : ((((2 * r + 1 + 1 : Nat) : Int) - ((r + 1 : Nat) : Int)) ^ n) ^ 2 =
      (((r + 1 : Nat) : Int) ^ n) ^ 2 := by
    congr 2
    push_cast
    ring
  rw [show 2 * (r + 1) + 1 = 2 * r + 1 + 1 + 1 by ring, Finset.sum_range_succ,
    Finset.sum_range_succ', hfirst, hlast]
  have hrest : 0 ≤ ∑ v ∈ Finset.range (2 * r + 1),
      ((((v + 1 : Nat) : Int) - ((r + 1 : Nat) : Int)) ^ n) ^ 2 :=
    Finset.sum_nonneg fun _ _ => sq_nonneg _
  linarith

theorem sum_offsets_zero (w : Window) :
    ∑ v ∈ Finset.range (2 * w.margin + 1), (((v : Int) - (w.margin : Int)) ^ 0) ^ 2 =
      (w.side : Int) := by
  simp [Window.side]

omit [LinearOrder K] [IsStrictOrderedRing K] in
theorem single_dotProduct_self {r : Nat} (i : Fin r) :
    (Pi.single i 1 : Fin r → K) ⬝ᵥ Pi.single i 1 = 1 := by
  rw [single_dotProduct, Pi.single_eq_same, one_mul]

section Lost

variable {k : Order} {w : Window} {d : ThinSvd K w.area k.terms}
  (hd : d.Decomposes (designTable K k w)) (hside : k.degree < w.side)

include hd hside

/-- The column of the constant bounds the least singular value. -/
theorem exists_sq_value_le_side : ∃ l, d.values.get l ^ 2 ≤ (w.side : K) ^ 2 := by
  obtain ⟨l, hl⟩ := hd.exists_sq_value_le (Order.terms_le_area hside)
    (single_dotProduct_self (⟨0, termCount_pos _⟩ : Fin k.terms))
  rw [column_dotProduct_self k.monomials_zero, sum_offsets_zero] at hl
  refine ⟨l, hl.trans_eq ?_⟩
  push_cast
  ring

/-- The column of the highest power of the column offset bounds the greatest singular value. -/
theorem exists_margin_le_sq_value :
    ∃ j, 2 * ((w.margin : K) ^ k.degree) ^ 2 * w.side ≤ d.values.get j ^ 2 := by
  obtain ⟨i, hi⟩ := k.exists_monomial (e := ⟨k.degree, 0⟩) le_rfl
  obtain ⟨j, hj⟩ := hd.exists_le_sq_value (Order.terms_le_area hside) (single_dotProduct_self i)
  rw [column_dotProduct_self hi, sum_offsets_zero] at hj
  refine ⟨j, le_trans ?_ hj⟩
  have hle := mul_le_mul_of_nonneg_right (le_sum_offsets w.margin k.degree w.one_le)
    (Int.natCast_nonneg w.side)
  exact_mod_cast hle

/-- **Large windows lose a singular value that is not zero.** -/
theorem exists_lost (h : 2 ^ 103 ≤ w.side ^ 3 * (w.margin ^ k.degree) ^ 2) :
    ∃ l, d.values.get l ≠ 0 ∧ ¬d.Exceeds l := by
  obtain ⟨l, hleast⟩ := exists_sq_value_le_side hd hside
  obtain ⟨j, hgreatest⟩ := exists_margin_le_sq_value hd hside
  refine ⟨l, hd.value_ne_zero (designTable_independent hside) l, fun hexceeds => ?_⟩
  have hlong : (w.side : K) ^ 2 ≤ (max w.area k.terms : Nat) := by
    rw [sq]
    exact_mod_cast le_max_left w.area k.terms
  have hlost : (d.values.get j * (max w.area k.terms : Nat) / 2 ^ 52) ^ 2 < (w.side : K) ^ 2 := by
    refine lt_of_lt_of_le (pow_lt_pow_left₀ ((d.exceeds_def l).1 hexceeds j) ?_ two_ne_zero) hleast
    have := hd.nonneg j
    positivity
  rw [div_pow, mul_pow, div_lt_iff₀ (by positivity)] at hlost
  have hside_pos : (0 : K) < (w.side : K) ^ 2 := by
    have := w.side_pos
    positivity
  have hsmall : 2 * ((w.side : K) ^ 3 * ((w.margin : K) ^ k.degree) ^ 2) < (2 ^ 52) ^ 2 := by
    refine lt_of_mul_lt_mul_left ?_ hside_pos.le
    calc (w.side : K) ^ 2 * (2 * ((w.side : K) ^ 3 * ((w.margin : K) ^ k.degree) ^ 2))
        = 2 * ((w.margin : K) ^ k.degree) ^ 2 * w.side * ((w.side : K) ^ 2) ^ 2 := by ring
      _ ≤ d.values.get j ^ 2 * (max w.area k.terms : Nat) ^ 2 := by gcongr
      _ < (w.side : K) ^ 2 * (2 ^ 52) ^ 2 := hlost
  have hlarge : (2 : K) ^ 103 ≤ (w.side : K) ^ 3 * ((w.margin : K) ^ k.degree) ^ 2 := by
    exact_mod_cast h
  linarith

theorem inverse_mul_ne_one (h : 2 ^ 103 ≤ w.side ^ 3 * (w.margin ^ k.degree) ^ 2) :
    d.inverse.toMatrix * (designTable K k w).toMatrix ≠ 1 := by
  intro hone
  obtain ⟨l, hl, hlost⟩ := exists_lost hd hside h
  refine hlost (hd.exceeds_of_outer ?_ l hl)
  rw [Matrix.mul_assoc, hone, Matrix.mul_one]

end Lost

/-! ## The operator of a model -/

theorem FitModel.build_of_decomposes {k : Order} {w : Window} (hside : w.side < 2 ^ 26)
    [Decomposition (Exact K)] {d : ThinSvd K w.area k.terms}
    (hsvd : Decomposition.svd (FitModel.designOf k w) = d.numbers)
    (hd : d.Decomposes (designTable K k w)) :
    FitModel.build k w = .ok (⟨k, w, FitModel.designOf k w, d.inverse.numbers⟩,
      ⟨d.inverse.numbers, d.numbers.rank, d.numbers.condition⟩) := by
  have hsize := k.max_area_terms_lt hside
  have hpixel : 0 < w.area := Nat.mul_pos w.side_pos w.side_pos
  have hterm : 0 < k.terms := termCount_pos _
  have hrank : d.numbers.rank ≠ 0 := by
    -- the column of the constant monomial is not zero
    intro hzero
    have hentry := (hd.rank_eq_zero_iff hsize).1 hzero ⟨0, hpixel⟩ ⟨0, hterm⟩
    rw [entry_designTable, k.monomials_zero, Monomial.eval_cast, pow_zero, pow_zero,
      one_mul] at hentry
    exact one_ne_zero hentry
  unfold FitModel.build fit
  dsimp only
  rw [hsvd, FitModel.designOf_numbers, fitFrom_numbers _ d hpixel.ne' hterm.ne' hrank]
  rfl

/-- **What the tolerance costs.** Let the side of a window be less than `2 ^ 26`, and let the design
matrix be taken apart into a singular value decomposition. Then the model is built with the
pseudo-inverse of what the tolerance leaves of the design matrix. That is the pseudo-inverse of the
design matrix itself if and only if no singular value but zero is lost. A window that is small for
the order loses none, so if it also has more pixels on a side than the degree its operator finds the
coefficients of every polynomial. A window that is large for the order loses one, though it has more
pixels on a side than the degree, and its operator does not find all coefficients. -/
theorem FitModel.build_tolerance (k : Order) (w : Window) (hside : w.side < 2 ^ 26)
    [Decomposition (Exact K)] (d : ThinSvd K w.area k.terms)
    (hsvd : Decomposition.svd (FitModel.designOf k w) = d.numbers)
    (hd : d.Decomposes (designTable K k w)) :
    (∃ fitted, FitModel.build k w =
      .ok (⟨k, w, FitModel.designOf k w, d.inverse.numbers⟩, fitted) ∧
      fitted.rank = (Finset.univ.filter d.Exceeds).card) ∧
    IsPseudoInverse d.truncated d.inverse ∧
    (IsPseudoInverse (designTable K k w) d.inverse ↔
      ∀ l, d.values.get l ≠ 0 → d.Exceeds l) ∧
    (w.side ^ (k.degree + 3) ≤ 2 ^ (47 + k.degree) →
      IsPseudoInverse (designTable K k w) d.inverse ∧
      (k.degree < w.side → d.inverse.toMatrix * (designTable K k w).toMatrix = 1)) ∧
    (2 ^ 103 ≤ w.side ^ 3 * (w.margin ^ k.degree) ^ 2 →
      k.degree < w.side ∧ ¬IsPseudoInverse (designTable K k w) d.inverse ∧
      d.inverse.toMatrix * (designTable K k w).toMatrix ≠ 1) := by
  refine ⟨⟨_, FitModel.build_of_decomposes hside hsvd hd, hd.rank_eq⟩,
    hd.isPseudoInverse_truncated, hd.isPseudoInverse_iff, fun hsmall => ?_, fun hlarge => ?_⟩
  · have hinverse : IsPseudoInverse (designTable K k w) d.inverse :=
      hd.isPseudoInverse_iff.2 fun l hl => exceeds_of_side_le hd hsmall hl
    exact ⟨hinverse, fun hdegree => hinverse.mul_eq_one (designTable_independent hdegree)⟩
  · have hdegree : k.degree < w.side := by
      by_contra hle
      have hsix := k.le_six
      have hmargin : w.margin ≤ 2 := by
        unfold Window.side at hle
        omega
      have hpower : w.margin ^ k.degree ≤ 2 ^ 6 :=
        (Nat.pow_le_pow_left hmargin _).trans (Nat.pow_le_pow_right (by decide) hsix)
      have hbound : w.side ^ 3 * (w.margin ^ k.degree) ^ 2 ≤ 6 ^ 3 * (2 ^ 6) ^ 2 := by
        gcongr
        omega
      exact absurd (hlarge.trans hbound) (by decide)
    have hne := inverse_mul_ne_one hd hdegree hlarge
    refine ⟨hdegree, fun hinverse => ?_, hne⟩
    exact hne (hinverse.mul_eq_one (designTable_independent hdegree))

/-- With order six a window of fifteen pixels on a side loses nothing. -/
theorem FitModel.build_tolerance_fifteen :
    letI := Decomposition.real
    let k : Order := ⟨6, by decide, by decide⟩
    let w : Window := ⟨7, by decide⟩
    ∃ d : ThinSvd ℝ w.area k.terms,
      (w.side < 2 ^ 26 ∧ Decomposition.svd (FitModel.designOf k w) = d.numbers ∧
        d.Decomposes (designTable ℝ k w)) ∧
      IsPseudoInverse (designTable ℝ k w) d.inverse ∧
      d.inverse.toMatrix * (designTable ℝ k w).toMatrix = 1 := by
  intro k w
  let := Decomposition.real
  obtain ⟨d, hsvd, hd⟩ :=
    Decomposition.takesApart_real (FitModel.designOf k w) _ (FitModel.designOf_numbers k w)
  obtain ⟨-, -, -, hsmall, -⟩ := FitModel.build_tolerance k w (by decide) d hsvd hd
  obtain ⟨hinverse, hone⟩ := hsmall (by decide)
  exact ⟨d, ⟨by decide, hsvd, hd⟩, hinverse, hone (by decide)⟩

/-- With order six a window of two hundred and five pixels on a side loses a singular value that is
not zero, so polynomials are not recovered. -/
theorem exists_lost_two_hundred_five :
    let k : Order := ⟨6, by decide, by decide⟩
    let w : Window := ⟨102, by decide⟩
    (w.side < 2 ^ 26 ∧ k.degree < w.side) ∧
    (∃ d : ThinSvd ℝ w.area k.terms, d.Decomposes (designTable ℝ k w)) ∧
    ∀ d : ThinSvd ℝ w.area k.terms, d.Decomposes (designTable ℝ k w) →
      (∃ l, d.values.get l ≠ 0 ∧ ¬d.Exceeds l) ∧
      d.inverse.toMatrix * (designTable ℝ k w).toMatrix ≠ 1 := by
  intro k w
  have hside : k.degree < w.side := by decide
  have hlarge : 2 ^ 103 ≤ w.side ^ 3 * (w.margin ^ k.degree) ^ 2 := by decide
  refine ⟨⟨by decide, hside⟩, ThinSvd.exists_decomposes _, fun d hd => ?_⟩
  exact ⟨exists_lost hd hside hlarge, inverse_mul_ne_one hd hside hlarge⟩

end Facet
