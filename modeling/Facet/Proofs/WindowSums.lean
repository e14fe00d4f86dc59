import Mathlib
import Facet.Proofs.Exact
import Facet.Proofs.Extraction

/-!
# Descriptors in exact numbers

Over a field the coefficient of a window is a double sum over its rows and columns, and a component
of a descriptor is a quotient of two such sums, without a value exactly where the second of them is
zero. Both backends give these quotients for every image, window, stride and operator.
-/

namespace Facet

variable {K : Type} [Field K]

/-! ## Double sums over a window -/

/-- The pixel at a place of an image, zero outside of it. -/
def Raster.pixel (image : Raster K) (y x : Nat) : K :=
  if h : y < image.rows ∧ x < image.cols then image.pixels.entry ⟨y, h.1⟩ ⟨x, h.2⟩ else 0

theorem Raster.pixel_eq {image : Raster K} {y x : Nat} (hy : y < image.rows)
    (hx : x < image.cols) : image.pixel y x = image.pixels.entry ⟨y, hy⟩ ⟨x, hx⟩ :=
  dif_pos ⟨hy, hx⟩

/-- A row of numbers, one for each pixel of a window, times the pixels of the window whose first
corner is given, summed up. -/
def Raster.windowSum (image : Raster K) (w : Window) (row : Vector K w.area) (top left : Nat) : K :=
  ∑ u : Fin w.side, ∑ v : Fin w.side,
    row.get (FitModel.pixel w u v) * image.pixel (top + u) (left + v)

/-- The pixels of a window as pairs of a row and a column. -/
def Window.pixelEquiv (w : Window) : Fin w.side × Fin w.side ≃ Fin w.area := finProdFinEquiv

theorem Window.pixelEquiv_apply {w : Window} (u v : Fin w.side) :
    w.pixelEquiv (u, v) = FitModel.pixel w u v := by
  refine Fin.ext ?_
  show v.val + w.side * u.val = u.val * w.side + v.val
  ring

/-- Summing over the pixels of a window is summing over its rows and columns. -/
theorem sum_pixels {M : Type} [AddCommMonoid M] {w : Window} (f : Fin w.area → M) :
    ∑ p, f p = ∑ u : Fin w.side, ∑ v : Fin w.side, f (FitModel.pixel w u v) := by
  calc ∑ p, f p = ∑ q : Fin w.side × Fin w.side, f (w.pixelEquiv q) :=
        (w.pixelEquiv.sum_comp f).symm
    _ = ∑ u, ∑ v, f (w.pixelEquiv (u, v)) := Fintype.sum_prod_type _
    _ = ∑ u, ∑ v, f (FitModel.pixel w u v) := by simp only [Window.pixelEquiv_apply]

theorem pixel_div {w : Window} (u v : Fin w.side) : (FitModel.pixel w u v).val / w.side = u := by
  simp only [FitModel.pixel]
  rw [Nat.mul_comm, Nat.mul_add_div w.side_pos, Nat.div_eq_of_lt v.isLt, Nat.add_zero]

theorem pixel_mod {w : Window} (u v : Fin w.side) : (FitModel.pixel w u v).val % w.side = v := by
  simp only [FitModel.pixel]
  rw [Nat.mul_comm, Nat.mul_add_mod, Nat.mod_eq_of_lt v.isLt]

theorem Raster.windowSum_eq_sum (image : Raster K) (w : Window) (row : Vector K w.area)
    (top left : Nat) :
    image.windowSum w row top left =
      ∑ p : Fin w.area, row.get p * image.pixel (top + p / w.side) (left + p % w.side) := by
  rw [sum_pixels]
  simp only [pixel_div, pixel_mod]
  rfl

/-- The coefficients of all windows of an image under an operator. -/
def Raster.windowSums (image : Raster K) (w : Window) (d : Stride) {terms : Nat}
    (operator : Table K terms w.area) : Fin (windowCount image.rows w d) →
      Fin (windowCount image.cols w d) → Fin terms → K := fun r c i =>
  image.windowSum w (operator.get i) (r * d.step) (c * d.step)

omit [Field K] in
theorem Table.get_numbers {m n : Nat} (t : Table K m n) (i : Fin m) :
    t.numbers.get i = (t.get i).map Exact.number := by
  refine Vector.ext fun j hj => ?_
  have := t.entry_numbers i ⟨j, hj⟩
  simpa [Table.entry] using this

variable [LinearOrder K]

/-- The coefficient of a window within the image is its double sum. -/
theorem windowCoefficient_numbers {image : Raster K} {w : Window} (row : Vector K w.area)
    {top left : Nat} (hr : top + w.side ≤ image.rows) (hc : left + w.side ≤ image.cols) :
    windowCoefficient image.numbers w (row.map Exact.number) top left =
      .number (image.windowSum w row top left) := by
  have hterm (p : Fin w.area) :
      (row.map Exact.number).get p * image.numbers.within w top left p =
        .number (row.get p * image.pixel (top + p / w.side) (left + p % w.side)) := by
    have hrow : top + p / w.side < image.rows := w.add_row_lt p hr
    have hcol : left + p % w.side < image.cols := w.add_col_lt p hc
    rw [image.numbers.within_eq hrow hcol, Raster.pixel_eq hrow hcol]
    simp [Raster.numbers]
  unfold windowCoefficient
  simp only [hterm]
  rw [sumOver_number, image.windowSum_eq_sum]

/-- A component of a descriptor is a quotient of double sums. -/
theorem entry_windowDescriptors_numbers (image : Raster K) (w : Window) (d : Stride) {terms : Nat}
    (operator : Table K terms w.area) (r : Fin (windowCount image.rows w d))
    (c : Fin (windowCount image.cols w d)) (i : Fin (terms - 1)) :
    (windowDescriptors image.numbers w d operator.numbers).entry r c i =
      .number (image.windowSum w (operator.get ⟨i.val + 1, succ_lt_of_pred i⟩) (r * d.step)
          (c * d.step)) /
        .number (image.windowSum w (operator.get ⟨0, pos_of_pred i⟩) (r * d.step) (c * d.step)) := by
  have hr := (lt_windowCount_iff _ _ _ _).1 r.isLt
  have hc := (lt_windowCount_iff _ _ _ _).1 c.isLt
  refine (entry_windowDescriptors image.numbers w d operator.numbers r c i).trans ?_
  rw [Table.get_numbers, Table.get_numbers, windowCoefficient_numbers _ hr hc,
    windowCoefficient_numbers _ hr hc]

/-- Where there are windows, each backend computes their double sums. -/
theorem Backend.coefficients_numbers (b : Backend) (image : Raster K) (w : Window) (d : Stride)
    {terms : Nat} (operator : Table K terms w.area) (hr : 0 < windowCount image.rows w d)
    (hc : 0 < windowCount image.cols w d) :
    b.coefficients image.numbers w d operator.numbers =
      Grid.ofFn (windowCount image.rows w d) (windowCount image.cols w d) terms fun r c i =>
        .number (image.windowSums w d operator r c i) := by
  refine (b.coefficients_eq image.numbers w d operator.numbers hr hc).trans ?_
  refine Grid.ofFn_congr rfl rfl fun r c i => ?_
  have hrow : r * d.step + w.side ≤ image.rows := (lt_windowCount_iff _ _ _ _).1 r.isLt
  have hcol : c * d.step + w.side ≤ image.cols := (lt_windowCount_iff _ _ _ _).1 c.isLt
  rw [Table.get_numbers, windowCoefficient_numbers _ hrow hcol]
  rfl

/-- The descriptors of an image of numbers are the quotients of its double sums. -/
theorem extract_numbers (b : Backend) {image : ArrayLike (Exact K)} {I : Raster K} (w : Window)
    (d : Stride) {terms : Nat} (operator : Table K terms w.area) (hterms : 0 < terms)
    (himage : image.intensity = .ok I.numbers) :
    extract b image ⟨terms, w.area, operator.numbers⟩ w d =
      .ok (Grid.ofFn (windowCount I.rows w d) (windowCount I.cols w d) (terms - 1) fun r c i =>
        .number (I.windowSums w d operator r c ⟨i.val + 1, succ_lt_of_pred i⟩) /
          .number (I.windowSums w d operator r c ⟨0, hterms⟩)) := by
  rw [extract_eq b image w d operator.numbers hterms, himage]
  refine congrArg Except.ok (Grid.ofFn_congr rfl rfl fun r c i => ?_)
  have h := entry_windowDescriptors_numbers I w d operator r c i
  rw [entry_windowDescriptors] at h
  exact h

/-- A place of the continued image that belongs to the image holds its pixel. -/
theorem padded_numbers_of_covers {image : Raster K} {margin y x : Nat}
    (h : image.Covers margin y x) :
    image.numbers.padded margin y x = .number (image.pixel (y - margin) (x - margin)) := by
  obtain ⟨⟨hy, hrow⟩, hx, hcol⟩ := h
  obtain ⟨r, rfl⟩ := Nat.exists_eq_add_of_le hy
  obtain ⟨c, rfl⟩ := Nat.exists_eq_add_of_le hx
  have hr : r < image.rows := by omega
  have hc : c < image.cols := by omega
  rw [image.numbers.padded_eq hr hc, Nat.add_sub_cancel_left,
    Nat.add_sub_cancel_left, Raster.pixel_eq hr hc]
  exact Table.entry_numbers image.pixels ⟨r, hr⟩ ⟨c, hc⟩

/-! ## Both backends over any image -/

/-- **Both backends give the quotients of double sums.** For every image whose intensities are
numbers and every operator with at least one row, each backend gives the same grid, whose shape is
that of the windows that fit into the image. Where the grid has places at all, the samples of
correlation and the view of the windows have as many, and no sample depends on a pixel beyond the
border. -/
theorem extract_eq_windowSum_quotients (image : ArrayLike (Exact K)) (I : Raster K) (w : Window)
    (d : Stride) {terms : Nat} (operator : Table K terms w.area)
    (himage : image.intensity = .ok I.numbers) (hterms : 0 < terms) :
    ∃ g : Grid (Exact K),
      (∀ b : Backend,
        extract b image ⟨terms, w.area, operator.numbers⟩ w d = .ok g ∧
        extractWith (some (.text b.name)) image
          (.array (Samples.ofMatrix ⟨terms, w.area, operator.numbers⟩)) w.value (some d.value) =
            .ok g) ∧
      gridShape [.int I.rows, .int I.cols] w.value d.value = .ok (.int g.rows, .int g.cols) ∧
      g.depth = terms - 1 ∧
      (∀ (r : Fin g.rows) (c : Fin g.cols) (i : Fin g.depth) (hi : i.val + 1 < terms),
        (r * d.step + w.side ≤ I.rows ∧ c * d.step + w.side ≤ I.cols) ∧
        g.entry r c i =
          .number (I.windowSum w (operator.get ⟨i.val + 1, hi⟩) (r * d.step) (c * d.step)) /
            .number (I.windowSum w (operator.get ⟨0, hterms⟩) (r * d.step) (c * d.step))) ∧
      (0 < g.rows → 0 < g.cols →
        ((Sampling.centres w d g.rows).count I.rows = g.rows ∧
          (Sampling.centres w d g.cols).count I.cols = g.cols) ∧
        (positionCount I.rows w d = g.rows ∧ positionCount I.cols w d = g.cols) ∧
        ∀ (r : Fin g.rows) (c : Fin g.cols) (p : Fin w.area),
          let y := (Sampling.centres w d g.rows).place r + p / w.side
          let x := (Sampling.centres w d g.cols).place c + p % w.side
          I.Covers w.margin y x ∧
            I.numbers.padded w.margin y x = .number (I.pixel (y - w.margin) (x - w.margin))) := by
  have hextract (b : Backend) : extract b image ⟨terms, w.area, operator.numbers⟩ w d =
      .ok (windowDescriptors I.numbers w d operator.numbers) := by
    rw [extract_eq b image w d operator.numbers hterms, himage]
    rfl
  refine ⟨windowDescriptors I.numbers w d operator.numbers, fun b => ⟨hextract b, ?_⟩,
    gridShape_value I.rows I.cols w d, rfl, fun r c i hi => ⟨⟨?_, ?_⟩, ?_⟩, fun hr hc =>
    ⟨⟨count_centres_eq hr, count_centres_eq hc⟩, ⟨positionCount_eq hr, positionCount_eq hc⟩,
      fun r c p => ⟨covers_of_sample r.isLt c.isLt p, ?_⟩⟩⟩
  · rw [extractWith_ofMatrix b image w d operator.numbers hterms, hextract]
  · exact (lt_windowCount_iff _ _ _ _).1 r.isLt
  · exact (lt_windowCount_iff _ _ _ _).1 c.isLt
  · exact entry_windowDescriptors_numbers I w d operator r c i
  · exact padded_numbers_of_covers (covers_of_sample r.isLt c.isLt p)

/-- An image of six rows and eight columns under windows of three pixels on a side, two pixels
apart: the last row and the last column belong to no window. The operator averages a window and
takes its slope along the rows. -/
theorem extract_eq_windowSum_quotients_six_by_eight :
    let I : Raster ℚ := ⟨6, 8, Table.ofFn fun r c => (r.val : ℚ) * c.val + 3 * c.val + 1⟩
    let w : Window := ⟨1, by decide⟩
    let d : Stride := ⟨2, by decide⟩
    let operator : Table ℚ 2 w.area :=
      Table.ofFn fun i p => if i = 0 then 1 / 9 else ((p.val % 3 : Nat) - 1) / 6
    let image : ArrayLike (Exact ℚ) :=
      .array (Samples.ofMatrix ⟨I.numbers.rows, I.numbers.cols, I.numbers.pixels⟩)
    (image.intensity = .ok I.numbers ∧ 0 < 2) ∧
      ∃ g : Grid (Exact ℚ),
        (∀ b : Backend, extract b image ⟨2, w.area, operator.numbers⟩ w d = .ok g) ∧
        g.shape = [2, 3, 1] ∧
        ∀ (r : Fin g.rows) (c : Fin g.cols) (i : Fin g.depth), r.val = 1 → c.val = 2 →
          g.entry r c i = .number (6 / 31) := by
  intro I w d operator image
  have himage : image.intensity = .ok I.numbers := ArrayLike.intensity_ofMatrix I.numbers
  obtain ⟨g, hg, hshape, hdepth, hentry, -⟩ :=
    extract_eq_windowSum_quotients image I w d operator himage (by decide)
  refine ⟨⟨himage, by decide⟩, g, fun b => (hg b).1, ?_, fun r c i hr hc => ?_⟩
  · have hrows : windowCount I.rows w d = 2 := by decide
    have hcols : windowCount I.cols w d = 3 := by decide
    rw [gridShape_value, hrows, hcols] at hshape
    simp only [Except.ok.injEq, Prod.mk.injEq, Value.int.injEq, Int.natCast_inj] at hshape
    rw [Grid.shape, ← hshape.1, ← hshape.2, hdepth]
  · have hi : i.val = 0 := by
      have := i.isLt
      omega
    have h := (hentry r c i (by omega)).2
    simp only [hr, hc, hi] at h
    have hslope : I.windowSum w (operator.get 1) 2 4 = 6 := by decide +kernel
    have hmean : I.windowSum w (operator.get 0) 2 4 = 31 := by decide +kernel
    rw [h]
    show Exact.number (I.windowSum w (operator.get 1) 2 4) /
      Exact.number (I.windowSum w (operator.get 0) 2 4) = _
    rw [hslope, hmean, Exact.number_div_of_ne (by norm_num)]

end Facet
