import Mathlib
import Facet.Proofs.LeastSquares

/-!
# Contrast and brightness

If every intensity of an image is multiplied by one number and raised by another, the coefficients
of every window are multiplied by the first, and the second is added to the constant coefficient
alone. The first half is the linearity of the fit. The second says that the fit of a window of ones
is the constant polynomial one, which is not obvious where the window cannot tell all monomials
apart and the shortest of many fits is taken. It holds because all monomials but the constant one
vanish at the centre: the row of the centre in the design matrix is the constant polynomial one, and
a pseudo-inverse finds the rows of its matrix again.
-/

namespace Facet

open scoped Matrix

variable {K : Type} [Field K]

/-! ## Windows of ones -/

/-- The projection that belongs to a pseudo-inverse leaves the rows of the matrix as they are. -/
theorem IsPseudoInverse.mul_mul_transpose {m n : Nat} {a : Table K m n} {x : Table K n m}
    (h : IsPseudoInverse a x) : x.toMatrix * a.toMatrix * a.toMatrixᵀ = a.toMatrixᵀ := by
  calc x.toMatrix * a.toMatrix * a.toMatrixᵀ
      = (x.toMatrix * a.toMatrix)ᵀ * a.toMatrixᵀ := by rw [h.symm_right]
    _ = (a.toMatrix * x.toMatrix * a.toMatrix)ᵀ := by rw [← Matrix.transpose_mul, Matrix.mul_assoc]
    _ = a.toMatrixᵀ := by rw [h.outer]

/-- The pixel in the middle of a window. -/
def Window.centre (w : Window) : Fin w.area :=
  have : w.margin < w.side := by
    unfold Window.side
    omega
  FitModel.pixel w ⟨w.margin, this⟩ ⟨w.margin, this⟩

theorem Window.offset_centre (w : Window) : w.offsetX w.centre = 0 ∧ w.offsetY w.centre = 0 := by
  unfold Window.offsetX Window.offsetY Window.centre
  rw [pixel_mod, pixel_div]
  exact ⟨sub_self _, sub_self _⟩

variable {k : Order} {w : Window}

/-- The constant monomial is one at every pixel. -/
theorem designTable_constant (p : Fin w.area) :
    (designTable K k w).entry p ⟨0, termCount_pos _⟩ = 1 := by
  rw [entry_designTable, k.monomials_zero, Monomial.eval_cast, pow_zero, pow_zero, one_mul]

/-- All monomials but the constant one vanish in the middle of the window. -/
theorem designTable_centre (i : Fin k.terms) :
    (designTable K k w).entry w.centre i = if i.val = 0 then 1 else 0 := by
  obtain ⟨hx, hy⟩ := w.offset_centre
  by_cases hi : i.val = 0
  · obtain rfl : i = ⟨0, termCount_pos _⟩ := Fin.ext hi
    rw [designTable_constant, if_pos rfl]
  · rw [entry_designTable, Monomial.eval_cast, hx, hy, Int.cast_zero, if_neg hi]
    rcases k.exists_power_ne_zero hi with hcol | hrow
    · rw [zero_pow hcol, zero_mul]
    · rw [zero_pow hrow, mul_zero]

/-- **The fit of a window of ones is the constant polynomial one,** whether or not the window tells
all monomials apart. -/
theorem IsPseudoInverse.sum_row {X : Table K k.terms w.area}
    (hX : IsPseudoInverse (designTable K k w) X) (i : Fin k.terms) :
    ∑ p, X.entry i p = if i.val = 0 then 1 else 0 := by
  set A := designTable K k w with hA
  let first : Fin k.terms := ⟨0, termCount_pos _⟩
  calc ∑ p, X.entry i p
      = ∑ p, X.entry i p * A.entry p first := by
        simp only [hA, first, designTable_constant, mul_one]
    _ = (X.toMatrix * A.toMatrix) i first := rfl
    _ = ∑ j, (X.toMatrix * A.toMatrix) i j * A.entry w.centre j := by
        rw [Finset.sum_eq_single first]
        · rw [hA, designTable_centre, if_pos rfl, mul_one]
        · intro j _ hj
          rw [hA, designTable_centre, if_neg fun hzero => hj (Fin.ext hzero), mul_zero]
        · intro hnone
          exact absurd (Finset.mem_univ first) hnone
    _ = (X.toMatrix * A.toMatrix * A.toMatrixᵀ) i w.centre := rfl
    _ = A.entry w.centre i := by
        rw [hX.mul_mul_transpose]
        rfl
    _ = if i.val = 0 then 1 else 0 := designTable_centre i

/-! ## Brighter images of higher contrast -/

/-- An image with each intensity multiplied by one number and raised by another. -/
def Raster.affine (image : Raster K) (scale shift : K) : Raster K :=
  ⟨image.rows, image.cols, Table.ofFn fun r c => scale * image.pixels.entry r c + shift⟩

theorem Raster.affine_pixel (image : Raster K) (scale shift : K) {y x : Nat} (hy : y < image.rows)
    (hx : x < image.cols) :
    (image.affine scale shift).pixel y x = scale * image.pixel y x + shift := by
  have hchanged : (image.affine scale shift).pixel y x =
      (image.affine scale shift).pixels.entry ⟨y, hy⟩ ⟨x, hx⟩ := dif_pos ⟨hy, hx⟩
  rw [hchanged, pixel_eq hy hx]
  exact Table.entry_ofFn _ _ _

/-- A window sum is linear in the image, and over a window of ones it is the sum of the row. -/
theorem Raster.windowSum_affine (image : Raster K) (scale shift : K) (row : Vector K w.area)
    {top left : Nat} (hr : top + w.side ≤ image.rows) (hc : left + w.side ≤ image.cols) :
    (image.affine scale shift).windowSum w row top left =
      scale * image.windowSum w row top left + (∑ p, row.get p) * shift := by
  rw [windowSum_eq_sum, windowSum_eq_sum, Finset.mul_sum, Finset.sum_mul, ← Finset.sum_add_distrib]
  refine Finset.sum_congr rfl fun p _ => ?_
  rw [image.affine_pixel scale shift (w.add_row_lt p hr) (w.add_col_lt p hc)]
  ring

/-- **The law of contrast and brightness** for the coefficients of a window. -/
theorem IsPseudoInverse.windowSums_affine {X : Table K k.terms w.area}
    (hX : IsPseudoInverse (designTable K k w) X) (d : Stride) (image : Raster K) (scale shift : K)
    (r : Fin (windowCount image.rows w d)) (c : Fin (windowCount image.cols w d))
    (i : Fin k.terms) :
    (image.affine scale shift).windowSums w d X r c i =
      scale * image.windowSums w d X r c i + if i.val = 0 then shift else 0 := by
  have hr := (lt_windowCount_iff _ _ _ _).1 r.isLt
  have hc := (lt_windowCount_iff _ _ _ _).1 c.isLt
  have hrow : ∑ p, (X.get i).get p = if i.val = 0 then 1 else 0 := hX.sum_row i
  refine (image.windowSum_affine scale shift _ hr hc).trans ?_
  rw [hrow, ite_mul, one_mul, zero_mul]
  rfl

variable [LinearOrder K]

/-- **The photometric law.** Let the operator be the pseudo-inverse of the design matrix, whether or
not the window tells all monomials apart, and multiply every intensity of an image by one number and
raise it by another. Then with either backend the coefficients are multiplied by the first number,
and the second is added to the constant coefficient alone. So the components of a descriptor are the
multiplied coefficients over the multiplied and raised constant one. A factor other than zero leaves
the descriptors as they are, and those of a constant image other than zero are all zero. -/
theorem extract_affine {k : Order} {w : Window} {X : Table K k.terms w.area}
    (hX : IsPseudoInverse (designTable K k w) X) (d : Stride) (b : Backend) {I : Raster K}
    (scale shift : K) {image changed : ArrayLike (Exact K)}
    (himage : image.intensity = .ok I.numbers)
    (hchanged : changed.intensity = .ok (I.affine scale shift).numbers) :
    let rows := windowCount I.rows w d
    let cols := windowCount I.cols w d
    let operator : StoredMatrix (Exact K) := ⟨k.terms, w.area, X.numbers⟩
    let c := I.windowSums w d X
    (0 < rows → 0 < cols →
      b.coefficients I.numbers w d X.numbers =
        Grid.ofFn rows cols k.terms (fun r s i => .number (c r s i)) ∧
      b.coefficients (I.affine scale shift).numbers w d X.numbers =
        Grid.ofFn rows cols k.terms fun r s i =>
          .number (scale * c r s i + if i.val = 0 then shift else 0)) ∧
    ∃ g g' : Grid (Exact K),
      (extract b image operator w d = .ok g ∧ extract b changed operator w d = .ok g') ∧
      g = (Grid.ofFn rows cols k.dimensions fun r s i =>
        let mean := c r s ⟨0, termCount_pos _⟩
        if mean = 0 then .undefined
        else .number (c r s ⟨i.val + 1, succ_lt_of_pred i⟩ / mean)) ∧
      g' = (Grid.ofFn rows cols k.dimensions fun r s i =>
        let mean := scale * c r s ⟨0, termCount_pos _⟩ + shift
        if mean = 0 then .undefined
        else .number (scale * c r s ⟨i.val + 1, succ_lt_of_pred i⟩ / mean)) ∧
      (scale ≠ 0 → shift = 0 → g' = g) ∧
      (scale = 0 → shift ≠ 0 →
        g' = Grid.ofFn rows cols k.dimensions fun _ _ _ => .number 0) := by
  intro rows cols operator c
  have hlaw := hX.windowSums_affine d I scale shift
  have hextract := extract_numbers b w d X (termCount_pos _) himage
  have hafter : extract b changed operator w d =
      .ok (Grid.ofFn rows cols k.dimensions fun r s i =>
        let mean := scale * c r s ⟨0, termCount_pos _⟩ + shift
        if mean = 0 then .undefined
        else .number (scale * c r s ⟨i.val + 1, succ_lt_of_pred i⟩ / mean)) := by
    refine (extract_numbers b w d X (termCount_pos _) hchanged).trans ?_
    refine congrArg Except.ok (Grid.ofFn_congr rfl rfl fun r s i => ?_)
    have hi := hlaw r s ⟨i.val + 1, succ_lt_of_pred i⟩
    have hmean := hlaw r s ⟨0, termCount_pos _⟩
    rw [if_neg (Nat.succ_ne_zero _), add_zero] at hi
    rw [if_pos rfl] at hmean
    exact (congrArg₂ (fun x y => Exact.number x / Exact.number y) hi hmean).trans
      (Exact.number_div _ _)
  refine ⟨fun hr hc => ⟨b.coefficients_numbers I w d X hr hc, ?_⟩, _, _,
    ⟨hextract, hafter⟩, rfl, rfl, fun hscale hshift => ?_, fun hscale hshift => ?_⟩
  · refine (b.coefficients_numbers (I.affine scale shift) w d X hr hc).trans ?_
    refine Grid.ofFn_congr rfl rfl fun r s i => ?_
    exact congrArg Exact.number (hlaw r s i)
  · refine Grid.ofFn_congr rfl rfl fun r s i => ?_
    rw [hshift, Exact.number_div]
    simp only [add_zero, mul_eq_zero, hscale, false_or, mul_div_mul_left _ _ hscale]
    rfl
  · refine Grid.ofFn_congr rfl rfl fun r s i => ?_
    simp only [hscale, zero_mul, zero_add, if_neg hshift, zero_div]

/-- An image of four rows and five columns, twice as bright and three higher, under windows of three
pixels on a side for which polynomials of degree three have too many monomials: around the point in
the second row and fourth column the slope along the columns is three halves before, shared with the
cube, and the brightness is four. -/
theorem extract_affine_four_by_five :
    let k : Order := ⟨3, by decide, by decide⟩
    let w : Window := ⟨1, by decide⟩
    let d : Stride := ⟨2, by decide⟩
    let I : Raster ℚ := ⟨4, 5, Table.ofFn fun y x => (y.val : ℚ) * x.val + 1⟩
    let image (J : Raster ℚ) : ArrayLike (Exact ℚ) :=
      .array (Samples.ofMatrix ⟨J.numbers.rows, J.numbers.cols, J.numbers.pixels⟩)
    (IsPseudoInverse (designTable ℚ k w) cubicOperator ∧
      (image I).intensity = .ok I.numbers ∧
      (image (I.affine 2 3)).intensity = .ok (I.affine 2 3).numbers) ∧
    ∃ g : Grid (Exact ℚ),
      extract .filter (image (I.affine 2 3)) ⟨k.terms, w.area, cubicOperator.numbers⟩ w d =
        .ok g ∧
      g.shape = [1, 2, 9] ∧
      ∀ (r : Fin g.rows) (s : Fin g.cols) (i : Fin g.depth),
        r.val = 0 → s.val = 1 → i.val = 1 → g.entry r s i = .number (3 / 11) := by
  intro k w d I image
  have hX : IsPseudoInverse (designTable ℚ k w) cubicOperator := isPseudoInverse_cubicOperator
  have hintensity (J : Raster ℚ) : (image J).intensity = .ok J.numbers :=
    ArrayLike.intensity_ofMatrix J.numbers
  obtain ⟨-, -, g, ⟨-, hg⟩, -, rfl, -⟩ :=
    extract_affine hX d .filter 2 3 (hintensity I) (hintensity (I.affine 2 3))
  let c (i : Fin k.terms) : ℚ :=
    I.windowSums w d cubicOperator ⟨0, by decide⟩ ⟨1, by decide⟩ i
  have hmean : c ⟨0, by decide⟩ = 4 := by decide +kernel
  have hslope : c ⟨2, by decide⟩ = 3 / 2 := by decide +kernel
  have hshape : [windowCount I.rows w d, windowCount I.cols w d, k.dimensions] = [1, 2, 9] := by
    decide
  refine ⟨⟨hX, hintensity _, hintensity _⟩, _, hg, hshape, fun r s i hr hs hi => ?_⟩
  obtain rfl : r = ⟨0, by decide⟩ := Fin.ext hr
  obtain rfl : s = ⟨1, by decide⟩ := Fin.ext hs
  obtain rfl : i = ⟨1, by decide⟩ := Fin.ext hi
  refine (Grid.entry_ofFn _ _ _ _).trans ?_
  show (if 2 * c ⟨0, by decide⟩ + 3 = 0 then Exact.undefined
    else .number (2 * c ⟨2, by decide⟩ / (2 * c ⟨0, by decide⟩ + 3))) = _
  rw [hmean, hslope]
  norm_num

end Facet
