import Mathlib
import Facet.Proofs.Descriptors
import Facet.Proofs.Settings

/-!
# Extraction from an image of any kind

For an operator with at least one row, extraction refuses an image only for what it is, and gives
the descriptors of its windows otherwise. A matrix of numbers that arrives as an array is the same
operator: correlation cuts the array into the rows of the matrix, multiplication converts its
entries one by one, and both come back to the matrix.
-/

namespace Facet

variable {α : Type}

/-! ## Matrices as arrays -/

theorem mul_eq_extent (m n : Nat) : m * n = extent [m, n] := by
  simp [extent]

/-- The entries of a matrix row by row. -/
def Table.rowMajor {m n : Nat} (t : Table α m n) : Vector α (extent [m, n]) :=
  t.flatten.cast (mul_eq_extent m n)

theorem Table.entry_rowMajor {m n : Nat} (t : Table α m n) (i : Fin m) (j : Fin n) :
    Tensor.entry₂ t.rowMajor i j = t.entry i j := by
  have hn : 0 < n := j.pos
  have hi : (i.val * n + j.val) / n = i.val := by
    rw [Nat.mul_comm, Nat.mul_add_div hn, Nat.div_eq_of_lt j.isLt, Nat.add_zero]
  have hj : (i.val * n + j.val) % n = j.val := by
    rw [Nat.mul_comm, Nat.mul_add_mod, Nat.mod_eq_of_lt j.isLt]
  simp [Tensor.entry₂, rowMajor, Vector.getElem_flatten, hi, hj, Table.entry]

theorem Samples.ofMatrix_eq {m n : Nat} (t : Table α m n) :
    Samples.ofMatrix ⟨m, n, t⟩ = ⟨.real 64, ⟨[m, n], t.rowMajor.map Sample.real⟩⟩ := by
  simp only [Samples.ofMatrix, Samples.mk.injEq, Tensor.mk.injEq, heq_eq_eq, true_and]
  refine Vector.ext fun i hi => ?_
  simp [Table.rowMajor, Vector.getElem_flatten]

variable [Scalar α]

/-! ## The intensities of an image -/

/-- The intensities of an image of any kind. -/
def ArrayLike.intensity (image : ArrayLike α) : Except Fault (Raster α) := do
  let samples ← image.toSamples.mapError .argument
  samples.intensity.mapError .pixels

theorem ArrayLike.intensity_ofMatrix (raster : Raster α) :
    (ArrayLike.array (Samples.ofMatrix ⟨raster.rows, raster.cols, raster.pixels⟩)).intensity =
      .ok raster := by
  have hpixels : (Table.ofFn fun r c =>
      (Tensor.entry₂ (raster.pixels.rowMajor.map Sample.real) r c).toReal) = raster.pixels := by
    refine Table.ext_entry fun r c => ?_
    rw [Table.entry_ofFn, ← raster.pixels.entry_rowMajor]
    simp [Tensor.entry₂, Sample.toReal]
  rw [Samples.ofMatrix_eq]
  exact congrArg (fun pixels => Except.ok (Raster.mk raster.rows raster.cols pixels)) hpixels

theorem extract_eq (b : Backend) (image : ArrayLike α) (w : Window) (d : Stride) {terms : Nat}
    (operator : Table α terms w.area) (hterms : 0 < terms) :
    extract b image ⟨terms, w.area, operator⟩ w d =
      image.intensity.map fun raster => windowDescriptors raster w d operator := by
  unfold extract ArrayLike.intensity
  rw [dif_pos rfl]
  cases image.toSamples.mapError Fault.argument with
  | error e => rfl
  | ok samples =>
    simp only [ok_bind]
    cases samples.intensity.mapError Fault.pixels with
    | error e => rfl
    | ok raster =>
      rw [ok_bind, descriptors_eq b raster w d operator hterms]
      rfl

/-! ## Operators as arrays -/

/-- Entries in the order of a matrix are cut into its rows. -/
theorem Kernels.ofEntries_rowMajor {w : Window} {terms : Nat} (operator : Table α terms w.area) :
    Kernels.ofEntries w operator.rowMajor.toArray = ⟨terms, operator⟩ := by
  have harea : 0 < w.area := Nat.mul_pos w.side_pos w.side_pos
  have hcount : operator.rowMajor.toArray.size / w.area = terms := by
    simp [extent, Nat.mul_div_cancel _ harea]
  have hentry (i : Fin terms) (p : Fin w.area) :
      operator.rowMajor.toArray[i.val * w.area + p.val]? = some (operator.entry i p) := by
    rw [Vector.getElem?_toArray, Vector.getElem?_eq_getElem (Tensor.place₂_lt i p),
      ← operator.entry_rowMajor]
    rfl
  have hrows : ∀ count, count = terms → ∀ rows : Table α count w.area,
      (∀ i : Fin count, ∀ p, some (rows.entry i p) =
        operator.rowMajor.toArray[i.val * w.area + p.val]?) →
      (⟨count, rows⟩ : Kernels α w) = ⟨terms, operator⟩ := by
    rintro _ rfl rows h
    refine congrArg _ (Table.ext_entry fun i p => ?_)
    exact Option.some.inj ((h i p).trans (hentry i p))
  refine hrows _ hcount _ fun i p => ?_
  have := hentry (i.cast hcount) p
  simp only [Fin.val_cast] at this
  rw [Table.entry_ofFn, this, Option.getD_some]

/-- Correlation and multiplication take a matrix as it is. -/
theorem Backend.kernels_ofMatrix (b : Backend) {w : Window} {terms : Nat}
    (operator : Table α terms w.area) (cols : Nat) :
    b.kernels (Samples.ofMatrix ⟨terms, w.area, operator⟩) w cols = .ok ⟨terms, operator⟩ := by
  rw [Samples.ofMatrix_eq]
  cases b with
  | filter =>
    have hmap : (operator.rowMajor.map Sample.real).toArray.map Sample.toKernel =
        operator.rowMajor.toArray := by
      simp [Function.comp_def, Sample.toKernel, Sample.toReal]
    rw [Backend.kernels, Samples.correlationKernels, if_pos (by simp [ElementType.isKernel]), hmap,
      Kernels.ofEntries_rowMajor]
  | windows =>
    have hmap : (operator.rowMajor.map Sample.real).mapM (m := Except ArgumentFault)
        Sample.toFactor = .ok operator.rowMajor := by
      rw [Vector.mapM_map]
      exact (Vector.mapM_pure id).trans (by rw [Vector.map_id]; rfl)
    have hresult (terms : Nat) : (withoutLeadingOnes [cols, terms]).length = 2 := by
      rw [withoutLeadingOnes]
      · rfl
      · rintro a b rest ⟨⟩
    have hmultiplies : (!(ElementType.real 64).multiplies) = false := rfl
    simp only [Backend.kernels, Samples.productKernels, Tensor.mapExcept, hmap, hmultiplies,
      Bool.false_eq_true, if_false, Samples.shape, List.drop_succ_cons, List.drop_zero,
      List.reverse_nil, List.nil_append, List.headD_cons, hresult]
    exact congrArg Except.ok (Kernels.ofEntries_rowMajor operator)

/-- A matrix that arrives as an array is applied as the matrix. -/
theorem extractWith_ofMatrix (b : Backend) (image : ArrayLike α) (w : Window) (d : Stride)
    {terms : Nat} (operator : Table α terms w.area) (hterms : 0 < terms) :
    extractWith (some (.text b.name)) image (.array (Samples.ofMatrix ⟨terms, w.area, operator⟩))
        w.value (some d.value) =
      extract b image ⟨terms, w.area, operator⟩ w d := by
  have hb : Backend.ofValue? (some (.text b.name)) = .ok b := by
    cases b <;> rfl
  have hsides : operatorSides (Samples.ofMatrix ⟨terms, w.area, operator⟩).shape =
      .ok (terms, w.area) := rfl
  rw [extract_eq b image w d operator hterms]
  unfold extractWith ArrayLike.intensity
  simp only [hb, Option.getD_some, Window.ofValue_value, Stride.ofValue_value, mapError_ok, ok_bind,
    ArrayLike.demand, hsides, ne_eq, not_true_eq_false, if_false]
  cases image.toSamples.mapError Fault.argument with
  | error e => rfl
  | ok samples =>
    simp only [ok_bind]
    cases samples.intensity.mapError Fault.pixels with
    | error e => rfl
    | ok raster =>
      have hd := descriptors_eq b raster w d operator hterms
      simp only [ok_bind, Backend.kernels_ofMatrix]
      simp only [descriptors] at hd
      split at hd <;> rename_i hempty
      · rw [if_pos hempty, hd]
        rfl
      · rw [if_neg hempty, Except.ok.inj hd]
        rfl

/-! ## The size of the grid -/

theorem natCast_windowCount (size : Nat) (w : Window) (d : Stride) :
    (windowCount size w d : Int) = axisCount size w.side d.step := by
  rw [windowCount, Int.toNat_of_nonneg (by unfold axisCount; omega)]

theorem axisCountOf_int (size : Int) (w : Window) (d : Stride) :
    axisCountOf size w.value d.value = .ok (.int (axisCount size w.side d.step)) := by
  have hd : (d.step : Int) ≠ 0 := by
    have := d.one_le
    omega
  simp only [axisCountOf, Window.value, Stride.value, Value.integer?, if_neg hd]
  rfl

theorem gridShape_int (rows cols : Int) (w : Window) (d : Stride) :
    gridShape [.int rows, .int cols] w.value d.value =
      .ok (.int (axisCount rows w.side d.step), .int (axisCount cols w.side d.step)) := by
  simp only [gridShape, Value.toInt, Value.integer?, Option.getD_some, ok_bind, axisCountOf_int]
  rfl

theorem gridShape_value (rows cols : Nat) (w : Window) (d : Stride) :
    gridShape [.int rows, .int cols] w.value d.value =
      .ok (.int (windowCount rows w d), .int (windowCount cols w d)) := by
  rw [gridShape_int, natCast_windowCount, natCast_windowCount]

end Facet
