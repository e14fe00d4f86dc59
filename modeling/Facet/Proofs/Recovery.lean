import Mathlib
import Facet.Plane.Mapping
import Facet.Proofs.LeastSquares

/-!
# Exact recovery of polynomials

Over an image whose intensities are the values of a polynomial, no higher in degree than the order
of the fit, the coefficients of every window are the Taylor coefficients of the polynomial at the
centre of the window. So a descriptor consists of these, divided by the value at the centre.
-/

namespace Facet

open MvPolynomial

variable {K : Type} [Field K]

/-- Whether the intensities of an image are the values of a polynomial in column and row. -/
def Raster.Shows (image : Raster K) (P : MvPolynomial (Fin 2) K) : Prop :=
  ∀ y x, image.pixels.entry y x = eval ![(x.val : K), (y.val : K)] P

/-- The Taylor coefficients at a point in the order of the monomials. -/
noncomputable def taylorVector (k : Order) (P : MvPolynomial (Fin 2) K) (x y : K) :
    Fin k.terms → K :=
  fun i => taylorCoefficient P (k.monomials.get i) x y

variable [CharZero K]

/-- The values of a polynomial around a centre are the design matrix times its Taylor
coefficients. -/
theorem designTable_mulVec_taylorVector {k : Order} {P : MvPolynomial (Fin 2) K}
    (hP : P.totalDegree ≤ k.degree) (w : Window) (x y : K) (p : Fin w.area) :
    (designTable K k w).toMatrix.mulVec (taylorVector k P x y) p =
      eval ![x + w.offsetX p, y + w.offsetY p] P := by
  rw [← sum_taylorCoefficient hP, ← k.sum_monomials, designTable_mulVec, eval_polynomialOf]
  refine Finset.sum_congr rfl fun i _ => ?_
  rw [taylorVector, mul_comm]

omit [CharZero K] in
/-- The pixels of a window are the values around its centre. -/
theorem Raster.Shows.pixel_eq {image : Raster K} {P : MvPolynomial (Fin 2) K}
    (hI : image.Shows P) {w : Window} {top left : Nat} (hr : top + w.side ≤ image.rows)
    (hc : left + w.side ≤ image.cols) (p : Fin w.area) :
    image.pixel (top + p / w.side) (left + p % w.side) =
      eval ![((left + w.margin : Nat) : K) + w.offsetX p,
        ((top + w.margin : Nat) : K) + w.offsetY p] P := by
  have hrow : top + p / w.side < image.rows := w.add_row_lt p hr
  have hcol : left + p % w.side < image.cols := w.add_col_lt p hc
  have hx : ((left + w.margin : Nat) : K) + w.offsetX p = ((left + p % w.side : Nat) : K) := by
    rw [Window.offsetX]
    generalize p.val % w.side = v
    push_cast
    ring
  have hy : ((top + w.margin : Nat) : K) + w.offsetY p = ((top + p / w.side : Nat) : K) := by
    rw [Window.offsetY]
    generalize p.val / w.side = u
    push_cast
    ring
  rw [Raster.pixel_eq hrow hcol, hI, hx, hy]

/-- Each row of the pseudo-inverse finds one Taylor coefficient from the pixels of a window. -/
theorem windowSum_eq_taylorCoefficient {k : Order} {w : Window} (hw : k.degree < w.side)
    {X : Table K k.terms w.area} (hX : IsPseudoInverse (designTable K k w) X)
    {P : MvPolynomial (Fin 2) K} (hP : P.totalDegree ≤ k.degree) {image : Raster K}
    (hI : image.Shows P) {top left : Nat} (hr : top + w.side ≤ image.rows)
    (hc : left + w.side ≤ image.cols) (i : Fin k.terms) :
    image.windowSum w (X.get i) top left =
      taylorCoefficient P (k.monomials.get i) ((left + w.margin : Nat) : K)
        ((top + w.margin : Nat) : K) := by
  set t := taylorVector k P ((left + w.margin : Nat) : K) ((top + w.margin : Nat) : K) with ht
  calc image.windowSum w (X.get i) top left
      = ∑ p, X.toMatrix i p * (designTable K k w).toMatrix.mulVec t p := by
        rw [image.windowSum_eq_sum]
        refine Finset.sum_congr rfl fun p _ => ?_
        rw [ht, designTable_mulVec_taylorVector hP, hI.pixel_eq hr hc]
        rfl
    _ = X.toMatrix.mulVec ((designTable K k w).toMatrix.mulVec t) i := rfl
    _ = t i := by
        rw [Matrix.mulVec_mulVec, hX.mul_eq_one (designTable_independent hw), Matrix.one_mulVec]

theorem Mapping.featureToImage_natCast (m : Mapping) (r c : Nat) :
    m.featureToImage ⟨c, r⟩ =
      ⟨((c * m.stride.step + m.window.margin : Nat) : Int),
        ((r * m.stride.step + m.window.margin : Nat) : Int)⟩ := by
  simp [featureToImage, toImage, margin]

variable [LinearOrder K]

/-- **Polynomials are recovered exactly.** Let the operator be the pseudo-inverse of the design
matrix, for a window with more pixels on a side than the order. Over an image of any size that shows
a polynomial of no higher degree than the order, both backends give, at every place whose centre is
no zero of the polynomial, the Taylor coefficients of the polynomial at the centre divided by its
value there, each at the component of its own monomial. -/
theorem extract_eq_taylorCoefficients {k : Order} {w : Window} (hw : k.degree < w.side)
    (d : Stride) (b : Backend) {X : Table K k.terms w.area}
    (hX : IsPseudoInverse (designTable K k w) X) {P : MvPolynomial (Fin 2) K}
    (hP : P.totalDegree ≤ k.degree) {image : ArrayLike (Exact K)} {I : Raster K}
    (himage : image.intensity = .ok I.numbers) (hI : I.Shows P) :
    ∃ g : Grid (Exact K), extract b image ⟨k.terms, w.area, X.numbers⟩ w d = .ok g ∧
      (g.rows = windowCount I.rows w d ∧ g.cols = windowCount I.cols w d ∧
        g.depth = k.dimensions) ∧
      ∀ (r : Fin g.rows) (c : Fin g.cols) (i : Fin g.depth),
        let centre := (⟨w, d⟩ : Mapping).featureToImage ⟨c, r⟩
        let value := eval ![(centre.x : K), (centre.y : K)] P
        value ≠ 0 → ∃ e, (Monomial.upTo k.degree)[i.val + 1]? = some e ∧
          g.entry r c i = .number (taylorCoefficient P e centre.x centre.y / value) := by
  refine ⟨windowDescriptors I.numbers w d X.numbers, ?_, ⟨rfl, rfl, rfl⟩, ?_⟩
  · rw [extract_eq b image w d X.numbers (termCount_pos _), himage]
    rfl
  · intro r c i centre value hvalue
    have hi : i.val + 1 < k.terms := succ_lt_of_pred i
    have hr := (lt_windowCount_iff _ _ _ _).1 r.isLt
    have hc := (lt_windowCount_iff _ _ _ _).1 c.isLt
    have hcoefficient := windowSum_eq_taylorCoefficient hw hX hP hI hr hc
    have hcentre : centre = ⟨((c.val * d.step + w.margin : Nat) : Int),
        ((r.val * d.step + w.margin : Nat) : Int)⟩ :=
      Mapping.featureToImage_natCast ⟨w, d⟩ r c
    have hconstant : I.windowSum w (X.get ⟨0, termCount_pos _⟩) (r * d.step) (c * d.step) =
        value := by
      rw [hcoefficient, k.monomials_zero, taylorCoefficient_constant]
      simp only [value, hcentre, Int.cast_natCast]
    refine ⟨k.monomials.get ⟨i.val + 1, hi⟩, k.getElem?_upTo ⟨i.val + 1, hi⟩, ?_⟩
    refine (entry_windowDescriptors_numbers I w d X r c i).trans ?_
    rw [hconstant, hcoefficient, Exact.number_div_of_ne hvalue, hcentre]
    simp only [Int.cast_natCast]

/-- An image of six rows and eight columns that rises by two along its rows and by five along its
columns, under windows of three pixels on a side, two pixels apart: at the last place the second
component is the slope along the columns. -/
theorem extract_eq_taylorCoefficients_six_by_eight :
    let k : Order := ⟨1, by decide, by decide⟩
    let w : Window := ⟨1, by decide⟩
    let d : Stride := ⟨2, by decide⟩
    let operator : Table ℚ k.terms w.area :=
      Table.ofFn fun i p => (designTable ℚ k w).entry p i / if i.val = 0 then 9 else 6
    let P : MvPolynomial (Fin 2) ℚ := C 2 * X 0 + C 5 * X 1 + C 1
    let I : Raster ℚ := ⟨6, 8, Table.ofFn fun y x => 2 * (x.val : ℚ) + 5 * y.val + 1⟩
    let image : ArrayLike (Exact ℚ) :=
      .array (Samples.ofMatrix ⟨I.numbers.rows, I.numbers.cols, I.numbers.pixels⟩)
    (k.degree < w.side ∧ IsPseudoInverse (designTable ℚ k w) operator ∧
      P.totalDegree ≤ k.degree ∧ image.intensity = .ok I.numbers ∧ I.Shows P) ∧
    ∃ g : Grid (Exact ℚ), extract .filter image ⟨k.terms, w.area, operator.numbers⟩ w d = .ok g ∧
      g.shape = [2, 3, 2] ∧
      ∀ (r : Fin g.rows) (c : Fin g.cols) (i : Fin g.depth),
        r.val = 1 → c.val = 2 → i.val = 1 → g.entry r c i = .number (5 / 26) := by
  intro k w d operator P I image
  have hw : k.degree < w.side := by decide
  have hoperator : IsPseudoInverse (designTable ℚ k w) operator :=
    { outer := by decide +kernel
      inner := by decide +kernel
      symm_left := by decide +kernel
      symm_right := by decide +kernel }
  have hP : P.totalDegree ≤ 1 := by
    refine (totalDegree_add _ _).trans (max_le ((totalDegree_add _ _).trans (max_le ?_ ?_)) ?_)
    · exact (totalDegree_mul _ _).trans (by simp)
    · exact (totalDegree_mul _ _).trans (by simp)
    · simp
  have himage : image.intensity = .ok I.numbers := ArrayLike.intensity_ofMatrix I.numbers
  have hI : I.Shows P := by
    intro y x
    simp [I, P]
  obtain ⟨g, hg, ⟨hrows, hcols, hdepth⟩, hentry⟩ :=
    extract_eq_taylorCoefficients hw d .filter hoperator hP himage hI
  refine ⟨⟨hw, hoperator, hP, himage, hI⟩, g, hg, ?_, fun r c i hr hc hi => ?_⟩
  · rw [Grid.shape, hrows, hcols, hdepth]
    decide
  · have h := hentry r c i
    simp only [hr, hc, hi] at h
    have hvalue : eval ![((5 : Int) : ℚ), ((3 : Int) : ℚ)] P = 26 := by
      simp [P]
      norm_num
    have hslope : taylorCoefficient P ⟨0, 1⟩ ((5 : Int) : ℚ) ((3 : Int) : ℚ) = 5 := by
      simp [taylorCoefficient, P]
    obtain ⟨e, he, hcomponent⟩ := h (by
      show eval ![((5 : Int) : ℚ), ((3 : Int) : ℚ)] P ≠ 0
      rw [hvalue]
      norm_num)
    have hsecond : (Monomial.upTo k.degree)[2]? = some ⟨0, 1⟩ := by decide
    obtain rfl : (⟨0, 1⟩ : Monomial) = e := Option.some.inj (hsecond.symm.trans he)
    rw [hcomponent]
    show Exact.number (taylorCoefficient P ⟨0, 1⟩ ((5 : Int) : ℚ) ((3 : Int) : ℚ) /
      eval ![((5 : Int) : ℚ), ((3 : Int) : ℚ)] P) = _
    rw [hslope, hvalue]

end Facet
