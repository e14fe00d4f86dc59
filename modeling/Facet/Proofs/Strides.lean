import Mathlib
import Facet.Proofs.WindowSums

/-!
# Multiples of a stride

With a stride that is a multiple of another one, windows begin at some of the places at which they
begin with the other. So the grid of the coarser stride consists of the rows and columns of the
finer grid whose numbers are multiples of the factor: all of these, also at the far border, and no
others. The number of windows along an axis is divided by the factor and rounded up.
-/

namespace Facet

/-- A multiple of a stride. -/
def Stride.times (n d : Stride) : Stride := ⟨n.step * d.step, Nat.mul_pos n.one_le d.one_le⟩

theorem Stride.mul_times (n d : Stride) (v : Nat) : v * (n.times d).step = n.step * v * d.step := by
  simp only [times]
  ring

/-! ## The number of windows -/

/-- There are no more windows than a given number if none would begin there or behind. -/
theorem axisCount_le_iff (size window : Int) (d : Stride) (n : Int) :
    axisCount size window d.step ≤ n ↔ 0 ≤ n ∧ size - window < n * d.step := by
  have hd : (0 : Int) < d.step := by exact_mod_cast d.one_le
  have hdiv := Int.ediv_lt_iff_lt_mul (a := size - window) (b := n) hd
  rw [axisCount, Int.fdiv_eq_ediv_of_nonneg _ hd.le, max_le_iff]
  omega

/-- The number of windows is divided and rounded up, for sizes and windows of any kind. -/
theorem axisCount_times (size window : Int) (n d : Stride) :
    axisCount size window (n.times d).step = ⌈(axisCount size window d.step : ℚ) / n.step⌉ := by
  have hn : (0 : Int) < n.step := by exact_mod_cast n.one_le
  refine eq_of_forall_ge_iff fun v => ?_
  have hcast : (axisCount size window d.step : ℚ) / n.step ≤ v ↔
      axisCount size window d.step ≤ v * n.step := by
    rw [div_le_iff₀ (by exact_mod_cast hn)]
    exact_mod_cast Iff.rfl
  have hplace : v * (n.times d).step = v * n.step * d.step := by
    simp only [Stride.times]
    push_cast
    ring
  rw [Int.ceil_le, hcast, axisCount_le_iff, axisCount_le_iff, hplace,
    mul_nonneg_iff_of_pos_right hn]

theorem windowCount_times (size : Nat) (w : Window) (n d : Stride) :
    (windowCount size w (n.times d) : Int) = ⌈(windowCount size w d : ℚ) / n.step⌉ := by
  rw [natCast_windowCount, axisCount_times, ← natCast_windowCount, Int.cast_natCast]

/-! ## The descriptors -/

variable {α : Type} [Scalar α]

/-- The descriptor of the window whose first corner is given. -/
def windowDescriptor (image : Raster α) (w : Window) {terms : Nat}
    (operator : Table α terms w.area) (top left : Nat) : Vector α (terms - 1) :=
  Vector.ofFn fun i =>
    windowCoefficient image w (operator.get ⟨i.val + 1, succ_lt_of_pred i⟩) top left /
      windowCoefficient image w (operator.get ⟨0, pos_of_pred i⟩) top left

/-- The stride says only at which places windows begin. -/
theorem list?_windowDescriptors (image : Raster α) (w : Window) (d : Stride) {terms : Nat}
    (operator : Table α terms w.area) (r c : Nat) :
    (windowDescriptors image w d operator).list? r c =
      if r * d.step + w.side ≤ image.rows ∧ c * d.step + w.side ≤ image.cols then
        some (windowDescriptor image w operator (r * d.step) (c * d.step))
      else none := by
  have hr := lt_windowCount_iff image.rows w d r
  have hc := lt_windowCount_iff image.cols w d c
  rw [Grid.list?]
  by_cases hplace : r < windowCount image.rows w d ∧ c < windowCount image.cols w d
  · have hfits : r * d.step + w.side ≤ image.rows ∧ c * d.step + w.side ≤ image.cols :=
      ⟨hr.1 hplace.1, hc.1 hplace.2⟩
    rw [if_pos hfits]
    exact (dif_pos hplace).trans (congrArg some (Table.entry_ofFn _ _ _))
  · rw [if_neg fun hfits => hplace ⟨hr.2 hfits.1, hc.2 hfits.2⟩]
    exact dif_neg hplace

theorem list?_windowDescriptors_times (image : Raster α) (w : Window) (n d : Stride) {terms : Nat}
    (operator : Table α terms w.area) (r c : Nat) :
    (windowDescriptors image w (n.times d) operator).list? r c =
      (windowDescriptors image w d operator).list? (n.step * r) (n.step * c) := by
  rw [list?_windowDescriptors, list?_windowDescriptors, Stride.mul_times, Stride.mul_times]

/-- **Strides nest.** For an image of any size and an operator with at least one row, each stride
has one grid, which both backends give. If a stride is multiplied then the number of windows along
each axis, also of an axis on which there are none, is divided by the factor and rounded up. The
descriptors of the coarser grid are those of the finer one at the multiples of the factor: at every
place the one has a descriptor exactly if the other has one, and it is the same. -/
theorem extract_strides_nest {image : ArrayLike α} {raster : Raster α}
    (himage : image.intensity = .ok raster) (w : Window) {terms : Nat} (hterms : 0 < terms)
    (operator : Table α terms w.area) :
    (∀ (rows cols : Int) (n d : Stride), ∃ nr nc : Int,
      gridShape [.int rows, .int cols] w.value d.value = .ok (.int nr, .int nc) ∧
      gridShape [.int rows, .int cols] w.value (n.times d).value =
        .ok (.int ⌈(nr : ℚ) / n.step⌉, .int ⌈(nc : ℚ) / n.step⌉)) ∧
    ∃ grid : Stride → Grid α,
      (∀ (b : Backend) (d : Stride),
        (extract b image ⟨terms, w.area, operator⟩ w d = .ok (grid d) ∧
          extractWith (some (.text b.name)) image
            (.array (Samples.ofMatrix ⟨terms, w.area, operator⟩)) w.value (some d.value) =
              .ok (grid d)) ∧
        gridShape [.int raster.rows, .int raster.cols] w.value d.value =
          .ok (.int (grid d).rows, .int (grid d).cols)) ∧
      ∀ n d : Stride,
        let fine := grid d
        let coarse := grid (n.times d)
        ((coarse.rows : Int) = ⌈(fine.rows : ℚ) / n.step⌉ ∧
          (coarse.cols : Int) = ⌈(fine.cols : ℚ) / n.step⌉ ∧ coarse.depth = fine.depth) ∧
        ∀ r c : Nat, (coarse.list? r c).map Vector.toList =
          (fine.list? (n.step * r) (n.step * c)).map Vector.toList := by
  have hextract (b : Backend) (d : Stride) : extract b image ⟨terms, w.area, operator⟩ w d =
      .ok (windowDescriptors raster w d operator) := by
    rw [extract_eq b image w d operator hterms, himage]
    rfl
  refine ⟨fun rows cols n d => ?_, fun d => windowDescriptors raster w d operator,
    fun b d => ⟨⟨hextract b d, ?_⟩, gridShape_value raster.rows raster.cols w d⟩, fun n d => ?_⟩
  · refine ⟨_, _, gridShape_int rows cols w d, ?_⟩
    rw [gridShape_int, axisCount_times, axisCount_times]
  · rw [extractWith_ofMatrix b image w d operator hterms, hextract]
  · refine ⟨⟨windowCount_times raster.rows w n d, windowCount_times raster.cols w n d, rfl⟩, ?_⟩
    intro r c
    exact congrArg _ (list?_windowDescriptors_times raster w n d operator r c)

/-- An image of eight rows and ten columns under windows of three pixels on a side, first two and
then four pixels apart. There are three rows and four columns of windows, of which every second one
remains, also the last of the rows. -/
theorem extract_strides_nest_eight_by_ten :
    let I : Raster ℚ := ⟨8, 10, Table.ofFn fun r c => (r.val : ℚ) * c.val + 3 * c.val + 1⟩
    let w : Window := ⟨1, by decide⟩
    let d : Stride := ⟨2, by decide⟩
    let operator : Table ℚ 2 w.area :=
      Table.ofFn fun i p => if i = 0 then 1 / 9 else ((p.val % 3 : Nat) - 1) / 6
    let image : ArrayLike (Exact ℚ) :=
      .array (Samples.ofMatrix ⟨I.numbers.rows, I.numbers.cols, I.numbers.pixels⟩)
    (image.intensity = .ok I.numbers ∧ 0 < 2) ∧
      ∃ fine coarse : Grid (Exact ℚ),
        extract .filter image ⟨2, w.area, operator.numbers⟩ w d = .ok fine ∧
        extract .windows image ⟨2, w.area, operator.numbers⟩ w (d.times d) = .ok coarse ∧
        (fine.rows = 3 ∧ fine.cols = 4) ∧ (coarse.rows = 2 ∧ coarse.cols = 2) ∧
        (coarse.list? 1 1).map Vector.toList = some [.number (8 / 41)] := by
  intro I w d operator image
  have himage : image.intensity = .ok I.numbers := ArrayLike.intensity_ofMatrix I.numbers
  obtain ⟨-, grid, hgrid, hnest⟩ :=
    extract_strides_nest himage w (by decide : 0 < 2) operator.numbers
  obtain ⟨⟨hfine, -⟩, hshape⟩ := hgrid .filter d
  obtain ⟨⟨hcoarse, -⟩, -⟩ := hgrid .windows (d.times d)
  obtain ⟨⟨hrows, hcols, -⟩, hplaces⟩ := hnest d d
  have hthree : windowCount I.rows w d = 3 := by decide
  have hfour : windowCount I.cols w d = 4 := by decide
  have hcount : gridShape [.int I.numbers.rows, .int I.numbers.cols] w.value d.value =
      .ok (.int (3 : Nat), .int (4 : Nat)) := by
    rw [← hthree, ← hfour]
    exact gridShape_value I.rows I.cols w d
  rw [hcount] at hshape
  simp only [Except.ok.injEq, Prod.mk.injEq, Value.int.injEq, Int.natCast_inj] at hshape
  have hvalue : ((extract .filter image ⟨2, w.area, operator.numbers⟩ w d).toOption.bind fun g =>
      (g.list? 2 2).map Vector.toList) = some [.number (8 / 41)] := by
    decide +kernel
  rw [hfine] at hvalue
  have hthirds : ⌈((3 : Nat) : ℚ) / d.step⌉ = 2 := by norm_num [d]
  have hquarters : ⌈((4 : Nat) : ℚ) / d.step⌉ = 2 := by norm_num [d]
  rw [← hshape.1, hthirds] at hrows
  rw [← hshape.2, hquarters] at hcols
  exact ⟨⟨himage, by decide⟩, grid d, grid (d.times d), hfine, hcoarse,
    ⟨hshape.1.symm, hshape.2.symm⟩, ⟨by exact_mod_cast hrows, by exact_mod_cast hcols⟩,
    (hplaces 1 1).trans hvalue⟩

end Facet
