import Mathlib
import Facet.Proofs.Exact

/-!
# The descriptor of a window

Both backends compute the same grid, and the grid has a form in which neither of them appears: at
row `r` and column `c` stand the quotients of the coefficients of the window whose first corner is
`(r · stride, c · stride)`. A window position counts exactly if the window begins at a multiple of
the stride and ends within the image, and the samples that correlation takes never reach a pixel
beyond the border.
-/

namespace Facet

variable {α : Type} [Scalar α]

/-! ## Window positions along an axis -/

theorem Window.three_le_side (w : Window) : 3 ≤ w.side := by
  have := w.one_le
  unfold Window.side
  omega

/-- A window position exists exactly if the window at it ends within the image. -/
theorem lt_windowCount_iff (size : Nat) (w : Window) (d : Stride) (r : Nat) :
    r < windowCount size w d ↔ r * d.step + w.side ≤ size := by
  have hd : (0 : Int) < d.step := by exact_mod_cast d.one_le
  have hdiv := Int.le_ediv_iff_mul_le (a := (r : Int)) (b := (size : Int) - w.side) hd
  have hcast : ((r * d.step : Nat) : Int) = r * d.step := by push_cast; rfl
  unfold windowCount axisCount
  rw [Int.fdiv_eq_ediv_of_nonneg _ hd.le]
  omega

theorem side_le_of_windowCount_pos {size : Nat} {w : Window} {d : Stride}
    (h : 0 < windowCount size w d) : w.side ≤ size := by
  have := (lt_windowCount_iff size w d 0).1 h
  omega

/-- Where there is a window position at all, the view of the windows has all of them. -/
theorem positionCount_eq {size : Nat} {w : Window} {d : Stride}
    (h : 0 < windowCount size w d) : positionCount size w d = windowCount size w d := by
  have hside := side_le_of_windowCount_pos h
  refine eq_of_forall_lt_iff fun r => ?_
  rw [lt_windowCount_iff, positionCount, Nat.lt_succ_iff, Nat.le_div_iff_mul_le d.one_le]
  omega

/-- The last window position ends within the image, and the samples of the centres stop there. -/
theorem centres_stop_le {size : Nat} {w : Window} {d : Stride}
    (h : 0 < windowCount size w d) :
    (Sampling.centres w d (windowCount size w d)).stop + w.margin ≤ size := by
  have hlast := (lt_windowCount_iff size w d (windowCount size w d - 1)).1 (by omega)
  have hside : w.side = 2 * w.margin + 1 := rfl
  simp only [Sampling.centres]
  omega

/-- Where there is a window position at all, sampling the centres gives all of them. -/
theorem count_centres_eq {size : Nat} {w : Window} {d : Stride}
    (h : 0 < windowCount size w d) :
    (Sampling.centres w d (windowCount size w d)).count size = windowCount size w d := by
  have hstop := centres_stop_le h
  have hd := d.one_le
  simp only [Sampling.centres, Sampling.count] at hstop ⊢
  set n := windowCount size w d
  have hlength : min (w.margin + (n - 1) * d.step + 1) size - w.margin + (d.step - 1) =
      n * d.step := by
    have hn : n * d.step = (n - 1) * d.step + d.step := by
      rw [← Nat.succ_mul]
      congr 1
      omega
    omega
  rw [hlength, Nat.mul_div_cancel _ hd]

/-! ## Pixels of a window -/

namespace Window

theorem row_lt (w : Window) (p : Fin w.area) : p.val / w.side < w.side :=
  Nat.div_lt_of_lt_mul p.isLt

theorem col_lt (w : Window) (p : Fin w.area) : p.val % w.side < w.side :=
  Nat.mod_lt _ w.side_pos

/-- The pixels of a window that ends within an axis lie on the axis. -/
theorem add_row_lt (w : Window) (p : Fin w.area) {top size : Nat} (h : top + w.side ≤ size) :
    top + p / w.side < size :=
  (Nat.add_lt_add_left (w.row_lt p) top).trans_le h

theorem add_col_lt (w : Window) (p : Fin w.area) {left size : Nat} (h : left + w.side ≤ size) :
    left + p % w.side < size :=
  (Nat.add_lt_add_left (w.col_lt p) left).trans_le h

end Window

theorem Raster.within_eq (image : Raster α) {w : Window} {top left p : Nat}
    (hr : top + p / w.side < image.rows) (hc : left + p % w.side < image.cols) :
    image.within w top left p = image.pixels.entry ⟨_, hr⟩ ⟨_, hc⟩ := by
  rw [Raster.within]
  exact dif_pos ⟨hr, hc⟩

theorem Raster.padded_eq (image : Raster α) {margin y x : Nat}
    (hr : y < image.rows) (hc : x < image.cols) :
    image.padded margin (margin + y) (margin + x) = image.pixels.entry ⟨y, hr⟩ ⟨x, hc⟩ := by
  have hy : min (margin + y - margin) (image.rows - 1) = y := by omega
  have hx : min (margin + x - margin) (image.cols - 1) = x := by omega
  simp only [Raster.padded, hy, hx]
  exact dif_pos ⟨hr, hc⟩

/-- A coefficient of the window whose first corner is given: a row of the operator applied to its
pixels. -/
def windowCoefficient (image : Raster α) (w : Window) (row : Vector α w.area) (top left : Nat) :
    α :=
  sumOver w.area fun p => row.get p * image.within w top left p

/-- The response at the centre of a window within the image is the coefficient of the window. -/
theorem response_eq_windowCoefficient {image : Raster α} {w : Window} (kernel : Vector α w.area)
    {top left : Nat} (hr : top + w.side ≤ image.rows) (hc : left + w.side ≤ image.cols) :
    response image w kernel (w.margin + top) (w.margin + left) =
      windowCoefficient image w kernel top left := by
  refine sumOver_congr rfl fun p => ?_
  have hrow : top + p / w.side < image.rows := w.add_row_lt p hr
  have hcol : left + p % w.side < image.cols := w.add_col_lt p hc
  rw [Nat.add_assoc, Nat.add_assoc, image.padded_eq hrow hcol, ← image.within_eq hrow hcol]
  rfl

/-- Whether a place of the continued image, counted from the corner of what is continued, belongs
to the image itself. -/
def Raster.Covers {β : Type} (image : Raster β) (margin y x : Nat) : Prop :=
  (margin ≤ y ∧ y < margin + image.rows) ∧ (margin ≤ x ∧ x < margin + image.cols)

omit [Scalar α] in
/-- A place that belongs to the window around a sample belongs to the image: what correlation reads
for a sample is never a continued pixel. -/
theorem covers_of_sample {image : Raster α} {w : Window} {d : Stride}
    {r : Nat} (hr : r < windowCount image.rows w d) {c : Nat} (hc : c < windowCount image.cols w d)
    (p : Fin w.area) :
    image.Covers w.margin ((Sampling.centres w d (windowCount image.rows w d)).place r + p / w.side)
      ((Sampling.centres w d (windowCount image.cols w d)).place c + p % w.side) := by
  have hrows := (lt_windowCount_iff _ _ _ _).1 hr
  have hcols := (lt_windowCount_iff _ _ _ _).1 hc
  have hu := w.row_lt p
  have hv := w.col_lt p
  simp only [Raster.Covers, Sampling.place, Sampling.centres]
  generalize p.val / w.side = u at hu ⊢
  generalize p.val % w.side = v at hv ⊢
  omega

/-! ## Components and coefficients -/

theorem succ_lt_of_pred {n : Nat} (i : Fin (n - 1)) : i.val + 1 < n :=
  Nat.add_lt_of_lt_sub i.isLt

theorem pos_of_pred {n : Nat} (i : Fin (n - 1)) : 0 < n :=
  Nat.zero_lt_of_lt (succ_lt_of_pred i)

/-! ## Grids -/

namespace Grid

variable {β : Type}

theorem ofFn_congr {rows rows' cols cols' depth : Nat} (hr : rows = rows') (hc : cols = cols')
    {f : Fin rows → Fin cols → Fin depth → β} {g : Fin rows' → Fin cols' → Fin depth → β}
    (h : ∀ r c i, f r c i = g (r.cast hr) (c.cast hc) i) :
    ofFn rows cols depth f = ofFn rows' cols' depth g := by
  subst hr hc
  have : f = g := by
    funext r c i
    exact h r c i
  rw [this]

@[simp] theorem entry_ofFn {rows cols depth : Nat} (f : Fin rows → Fin cols → Fin depth → β)
    (r : Fin rows) (c : Fin cols) (i : Fin depth) :
    (ofFn rows cols depth f).entry r c i = f r c i := by
  simp [entry, ofFn, Table.entry, Table.ofFn]

theorem eq_of_ofFn_eq {rows cols depth : Nat} {f g : Fin rows → Fin cols → Fin depth → β}
    (h : ofFn rows cols depth f = ofFn rows cols depth g) (r : Fin rows) (c : Fin cols)
    (i : Fin depth) : f r c i = g r c i := by
  simp only [ofFn, Grid.mk.injEq, heq_eq_eq, true_and] at h
  have hentry := congrArg (fun t : Table (Vector β depth) rows cols => (t.entry r c).get i) h
  simpa using hentry

theorem quotients_ofFn {rows cols depth : Nat} (f : Fin rows → Fin cols → Fin depth → α) :
    (ofFn rows cols depth f).quotients = ofFn rows cols (depth - 1) fun r c i =>
      f r c ⟨i.val + 1, succ_lt_of_pred i⟩ / f r c ⟨0, pos_of_pred i⟩ := by
  simp only [Grid.quotients, ofFn, Grid.mk.injEq, heq_eq_eq, true_and]
  refine Table.ext_entry fun r c => ?_
  simp [Table.entry, Table.ofFn, Facet.quotients]

end Grid

/-! ## Both backends -/

/-- The descriptors of all windows of an image in a form without a backend. -/
def windowDescriptors (image : Raster α) (w : Window) (d : Stride) {terms : Nat}
    (operator : Table α terms w.area) : Grid α :=
  Grid.ofFn (windowCount image.rows w d) (windowCount image.cols w d) (terms - 1) fun r c i =>
    windowCoefficient image w (operator.get ⟨i.val + 1, succ_lt_of_pred i⟩) (r * d.step)
        (c * d.step) /
      windowCoefficient image w (operator.get ⟨0, pos_of_pred i⟩) (r * d.step) (c * d.step)

theorem entry_windowDescriptors (image : Raster α) (w : Window) (d : Stride) {terms : Nat}
    (operator : Table α terms w.area) (r : Fin (windowCount image.rows w d))
    (c : Fin (windowCount image.cols w d)) (i : Fin (terms - 1)) :
    (windowDescriptors image w d operator).entry r c i =
      windowCoefficient image w (operator.get ⟨i.val + 1, succ_lt_of_pred i⟩) (r * d.step)
          (c * d.step) /
        windowCoefficient image w (operator.get ⟨0, pos_of_pred i⟩) (r * d.step) (c * d.step) :=
  Grid.entry_ofFn _ r c i

theorem Backend.coefficients_eq (b : Backend) (image : Raster α) (w : Window) (d : Stride)
    {terms : Nat} (operator : Table α terms w.area) (hr : 0 < windowCount image.rows w d)
    (hc : 0 < windowCount image.cols w d) :
    b.coefficients image w d operator =
      Grid.ofFn (windowCount image.rows w d) (windowCount image.cols w d) terms fun r c i =>
        windowCoefficient image w (operator.get i) (r * d.step) (c * d.step) := by
  cases b with
  | filter =>
    refine Grid.ofFn_congr (count_centres_eq hr) (count_centres_eq hc) fun r c i => ?_
    have hrow := (lt_windowCount_iff _ _ _ _).1 (r.isLt.trans_eq (count_centres_eq hr))
    have hcol := (lt_windowCount_iff _ _ _ _).1 (c.isLt.trans_eq (count_centres_eq hc))
    exact response_eq_windowCoefficient _ hrow hcol
  | windows =>
    exact Grid.ofFn_congr (positionCount_eq hr) (positionCount_eq hc) fun r c i => rfl

theorem descriptors_eq (b : Backend) (image : Raster α) (w : Window) (d : Stride) {terms : Nat}
    (operator : Table α terms w.area) (hterms : 0 < terms) :
    descriptors b image w d operator = .ok (windowDescriptors image w d operator) := by
  unfold descriptors
  by_cases hempty : windowCount image.rows w d = 0 ∨ windowCount image.cols w d = 0
  · rw [if_pos hempty, emptyDescriptors, if_neg (by omega)]
    refine congrArg _ (Grid.ofFn_congr rfl rfl fun r c i => ?_)
    -- there is no place at which the two could differ
    have hr := r.isLt
    have hc := c.isLt
    omega
  · rw [if_neg hempty, b.coefficients_eq image w d operator (by omega) (by omega),
      Grid.quotients_ofFn]
    rfl

end Facet
