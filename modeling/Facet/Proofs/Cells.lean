import Mathlib
import Facet.Proofs.PointMapping

/-!
# Pixels that are mapped into the grid

Every feature answers for a cell of pixels, as long and as high as the stride, that begins at its
centre: these are the pixels that are mapped to it. So the pixels that are mapped into the grid form
a rectangle of cells. It begins where the first window has its centre, and no pixel above it or to
the left of it is mapped into the grid. But it ends with a whole cell, and with a stride of more than
one the last cell may reach beyond the last pixel around which a window fits, and even beyond the
image. Then pixels near the far border are mapped into the grid although no window belongs to them.
-/

namespace Facet

/-! ## One axis -/

/-- The windows along an axis, one stride each, reach beyond the last pixel at which a window can
begin. -/
theorem lt_windowCount_mul_add_side (size : Nat) (w : Window) (d : Stride) :
    size < windowCount size w d * d.step + w.side := by
  by_contra h
  exact lt_irrefl _ ((lt_windowCount_iff size w d _).2 (not_lt.1 h))

/-- They reach no further than to the next pixel exactly if the stride divides the number of pixels
at which a window can begin. -/
theorem windowCount_mul_add_side_le_iff {size : Nat} {w : Window} {d : Stride}
    (h : 0 < windowCount size w d) :
    windowCount size w d * d.step + w.side ≤ size + 1 ↔ d.step ∣ size + 1 - w.side := by
  have hbeyond := lt_windowCount_mul_add_side size w d
  have hside := side_le_of_windowCount_pos h
  constructor
  · intro hle
    have hroom : size + 1 - w.side = windowCount size w d * d.step := by omega
    rw [hroom]
    exact Nat.dvd_mul_left _ _
  · rintro ⟨q, hq⟩
    rw [Nat.mul_comm] at hq
    -- the window that would begin behind the last possible pixel is not counted any more
    have hcount : windowCount size w d ≤ q := by
      by_contra hlt
      have := (lt_windowCount_iff size w d q).1 (not_le.1 hlt)
      omega
    have hmul := Nat.mul_le_mul_right d.step hcount
    omega

namespace Mapping

/-- A coordinate is mapped to one of the first places exactly if it lies in one of their cells. -/
theorem toFeature_mem_iff (m : Mapping) (v : Int) (count : Nat) :
    (0 ≤ m.toFeature v ∧ m.toFeature v < count) ↔
      (m.margin : Int) ≤ v ∧ v < m.margin + (count * m.stride.step : Nat) := by
  have hfirst := m.le_toFeature_iff 0 v
  have hbeyond := m.le_toFeature_iff count v
  simp only [toImage] at hfirst hbeyond
  push_cast
  omega

end Mapping

/-! ## The grid of an extractor -/

/-- Whether a window around a pixel lies within an image of a given size. -/
def Window.HasRoom (w : Window) (rows cols : Nat) (p : Point) : Prop :=
  ((w.margin : Int) ≤ p.x ∧ p.x ≤ cols - 1 - w.margin) ∧
    ((w.margin : Int) ≤ p.y ∧ p.y ≤ rows - 1 - w.margin)

namespace Extractor

variable {α : Type}

/-- The cells of all features: from the centre of the first one on, each as long and as high as the
stride. -/
def cells (x : Extractor α) : Rectangle where
  left := x.window.margin
  top := x.window.margin
  right := x.window.margin + x.features.cols * x.stride.step - 1
  bottom := x.window.margin + x.features.rows * x.stride.step - 1

variable {x : Extractor α}

/-- A pixel is mapped into the grid exactly if it lies in a cell. -/
theorem rect_contains_imageToFeature_iff (hmapping : x.mapping = .ofSettings x.settings.value)
    (p : Point) : x.rect.contains (x.mapping.imageToFeature p) ↔ x.cells.contains p := by
  have hcols := x.mapping.toFeature_mem_iff p.x x.features.cols
  have hrows := x.mapping.toFeature_mem_iff p.y x.features.rows
  have hmargin : x.mapping.margin = x.window.margin := by
    rw [hmapping]
    rfl
  have hstep : x.mapping.stride.step = x.stride.step := by
    rw [hmapping]
    rfl
  rw [hmargin, hstep] at hcols hrows
  rw [Mapping.imageToFeature, rect_contains_iff, Rectangle.contains_iff, hcols, hrows]
  simp only [cells]
  push_cast
  omega

/-- The features are those of an image of a given size. -/
structure Spans (x : Extractor α) (rows cols : Nat) : Prop where
  /-- There is a row for every window position down the image. -/
  rows : x.features.rows = windowCount rows x.window x.stride
  /-- There is a column for every window position across the image. -/
  cols : x.features.cols = windowCount cols x.window x.stride

variable {rows cols : Nat}

/-- Where a window fits around a pixel, the pixel lies in a cell. -/
theorem Spans.cells_contains (h : x.Spans rows cols) {p : Point}
    (hp : x.window.HasRoom rows cols p) : x.cells.contains p := by
  obtain ⟨⟨hleft, hright⟩, htop, hbottom⟩ := hp
  have hside : x.window.side = 2 * x.window.margin + 1 := rfl
  have hacross := lt_windowCount_mul_add_side cols x.window x.stride
  have hdown := lt_windowCount_mul_add_side rows x.window x.stride
  rw [← h.cols] at hacross
  rw [← h.rows] at hdown
  zify at hacross hdown hside
  rw [Rectangle.contains_iff]
  dsimp only [cells]
  omega

/-- A window fits around every pixel in the cells, unless there are none, exactly if the stride
divides the number of pixels at which a window can begin, on both axes. -/
theorem Spans.cells_hasRoom_iff (h : x.Spans rows cols) :
    (∀ p, x.cells.contains p → x.window.HasRoom rows cols p) ↔
      x.size = 0 ∨ x.stride.step ∣ cols + 1 - x.window.side ∧
        x.stride.step ∣ rows + 1 - x.window.side := by
  have hside : x.window.side = 2 * x.window.margin + 1 := rfl
  have hstep := x.stride.one_le
  constructor
  · intro hpromise
    rcases Nat.eq_zero_or_pos x.size with hsize | hsize
    · exact .inl hsize
    · have hrows : 0 < x.features.rows := Nat.pos_of_mul_pos_right hsize
      have hcols : 0 < x.features.cols := Nat.pos_of_mul_pos_left hsize
      -- the last pixel of the last cell
      have hlast : x.cells.contains x.cells.bottomRight := by
        have hacross := Nat.mul_pos hcols hstep
        have hdown := Nat.mul_pos hrows hstep
        zify at hacross hdown
        rw [Rectangle.contains_iff]
        dsimp only [Rectangle.bottomRight, cells]
        omega
      obtain ⟨⟨-, hright⟩, -, hbottom⟩ := hpromise _ hlast
      dsimp only [Rectangle.bottomRight, cells] at hright hbottom
      rw [h.cols] at hcols hright
      rw [h.rows] at hrows hbottom
      refine .inr ⟨(windowCount_mul_add_side_le_iff hcols).1 ?_,
        (windowCount_mul_add_side_le_iff hrows).1 ?_⟩
      · zify
        omega
      · zify
        omega
  · rintro hdivides p hp
    rw [Rectangle.contains_iff] at hp
    dsimp only [cells] at hp
    obtain ⟨⟨hleft, hright⟩, htop, hbottom⟩ := hp
    have hcols : 0 < x.features.cols := by
      by_contra hnone
      rw [Nat.eq_zero_of_not_pos hnone] at hright
      omega
    have hrows : 0 < x.features.rows := by
      by_contra hnone
      rw [Nat.eq_zero_of_not_pos hnone] at hbottom
      omega
    rcases hdivides with hsize | ⟨hacross, hdown⟩
    · exact absurd hsize (Nat.mul_pos hrows hcols).ne'
    · rw [h.cols] at hcols hright
      rw [h.rows] at hrows hbottom
      have hcolumns := (windowCount_mul_add_side_le_iff hcols).2 hacross
      have hlines := (windowCount_mul_add_side_le_iff hrows).2 hdown
      zify at hcolumns hlines hside
      exact ⟨⟨hleft, by omega⟩, htop, by omega⟩

/-- The features that are there after a load are those of an image of the size of the one loaded. -/
theorem Coherent.spans [Scalar α] [Decomposition α] {image : ArrayLike α}
    (h : x.Coherent (some image)) {raster : Raster α} (hraster : image.intensity = .ok raster) :
    x.Spans raster.rows raster.cols := by
  obtain ⟨raster', hraster', hfeatures⟩ := h.features_eq
  cases hraster.symm.trans hraster'
  constructor
  · rw [hfeatures, ← h.window]
    rfl
  · rw [hfeatures, ← h.window]
    rfl

end Extractor

/-- **The pixels that are mapped into the grid are those in its cells.** For every extractor of
every run that holds the features of an image: a pixel, whatever its coordinates and whether or not
it lies in the image, is mapped into the rectangle of the features exactly if it lies in one of the
cells, so never if it lies above or to the left of the first centre. All pixels around which a
window fits into the image are among them. There are no others if and only if there are no features
at all or the stride divides, along both axes, the number of pixels at which a window can begin. -/
theorem contains_imageToFeature_iff_cells {α : Type} [Scalar α] [Decomposition α]
    (commands : List (Command α)) (name : String) (x : Extractor α)
    (hx : (Store.empty.run commands).extractor? name = some x) (image : ArrayLike α)
    (himage : lastImage name (Store.empty.accepted commands) = some image) (raster : Raster α)
    (hraster : image.intensity = .ok raster) :
    let feature := x.mapping.imageToFeature
    (∀ p, x.mapping.imageToFeatureOf (.list [.int p.x, .int p.y]) =
      .ok (.int (feature p).x, .int (feature p).y)) ∧
    (∀ p, x.rect.contains (feature p) ↔ x.cells.contains p) ∧
    (∀ p, x.window.HasRoom raster.rows raster.cols p → x.rect.contains (feature p)) ∧
    ((∀ p, ¬ x.window.HasRoom raster.rows raster.cols p → ¬ x.rect.contains (feature p)) ↔
      x.size = 0 ∨ x.stride.step ∣ raster.cols + 1 - x.window.side ∧
        x.stride.step ∣ raster.rows + 1 - x.window.side) := by
  have hcoherent := (Store.run_consistent commands).coherent name x hx
  rw [himage] at hcoherent
  have hspans := hcoherent.spans hraster
  have hcells := Extractor.rect_contains_imageToFeature_iff hcoherent.mapping
  refine ⟨x.mapping.imageToFeatureOf_point, hcells, ?_, ?_⟩
  · intro p hp
    exact (hcells p).2 (hspans.cells_contains hp)
  · rw [← hspans.cells_hasRoom_iff]
    constructor
    · intro hpromise p hp
      by_contra hroom
      exact hpromise p hroom ((hcells p).2 hp)
    · intro hroom p hp hcontains
      exact hp (hroom p ((hcells p).1 hcontains))

/-- An image of seven rows and nine columns under windows of seven pixels, two pixels apart: the
cells end in the last but two column and in the last but two row, and no window fits around the last
pixel in them, which is mapped to the second feature. -/
theorem contains_imageToFeature_iff_cells_seven_by_nine :
    letI := Decomposition.byColumns
    let s : Samples (Exact ℚ) :=
      ⟨.integer false 8, ⟨[7, 9], Vector.ofFn fun p => .whole (p.val % 5 : Nat)⟩⟩
    let commands : List (Command (Exact ℚ)) :=
      [.construct "a" (some (.int 1)) (some (.int 7)) (some (.int 2)) none, .load "a" (.array s)]
    ∃ x raster, (Store.empty.run commands).extractor? "a" = some x ∧
      lastImage "a" (Store.empty.accepted commands) = some (.array s) ∧
      (ArrayLike.array s).intensity = .ok raster ∧
      x.rect.contains (x.mapping.imageToFeature ⟨6, 4⟩) ∧
      ¬ x.rect.contains (x.mapping.imageToFeature ⟨7, 4⟩) ∧
      ∃ p, ¬ x.window.HasRoom raster.rows raster.cols p ∧
        x.rect.contains (x.mapping.imageToFeature p) := by
  intro s commands
  let := Decomposition.byColumns
  have hrun : ((Store.empty.run commands).extractor? "a").map (fun x =>
      (x.cells, x.size, x.stride.step, x.window.side)) = some (⟨3, 3, 6, 4⟩, 2, 2, 7) := by
    decide +kernel
  obtain ⟨x, hx, hvalues⟩ := Option.map_eq_some_iff.1 hrun
  simp only [Prod.mk.injEq] at hvalues
  obtain ⟨hcells, hsize, hstep, hside⟩ := hvalues
  have hloaded : (Store.empty.run (commands.take 1)).accepts (.load "a" (.array s)) = true := by
    decide +kernel
  have hlast : lastImage "a" (Store.empty.accepted commands) = some (.array s) :=
    Store.lastImage_accepted_append_load "a" Store.empty (commands.take 1) (.array s) hloaded
  obtain ⟨-, hplaces, -, hpromise⟩ :=
    contains_imageToFeature_iff_cells commands "a" x hx (.array s) hlast _ rfl
  rw [hsize, hstep, hside] at hpromise
  refine ⟨x, _, hx, hlast, rfl, ?_, ?_, ?_⟩
  · rw [hplaces, hcells]
    decide
  · rw [hplaces, hcells]
    decide
  · by_contra hnone
    push Not at hnone
    exact absurd (hpromise.1 fun p hp => by simpa using hnone p hp) (by decide)

/-- An image of seven rows and seven columns under windows of seven pixels, five pixels apart, has
one feature, in its middle. The pixel to the right of the middle, which is too close to the border
for a window, and the first pixel to the right of the image are both mapped to it. -/
theorem border_mapped_into_grid_seven_by_seven :
    letI := Decomposition.byColumns
    let s : Samples (Exact ℚ) := ⟨.integer false 8, ⟨[7, 7], Vector.ofFn fun _ => .whole 4⟩⟩
    let commands : List (Command (Exact ℚ)) :=
      [.construct "a" (some (.int 1)) (some (.int 7)) (some (.int 5)) none, .load "a" (.array s)]
    ∃ x, (Store.empty.run commands).extractor? "a" = some x ∧ x.features.shape = [1, 1, 2] ∧
      lastImage "a" (Store.empty.accepted commands) = some (.array s) ∧
      (¬ x.window.HasRoom 7 7 ⟨4, 3⟩ ∧ x.rect.contains (x.mapping.imageToFeature ⟨4, 3⟩)) ∧
      (¬ x.window.HasRoom 7 7 ⟨7, 3⟩ ∧ x.rect.contains (x.mapping.imageToFeature ⟨7, 3⟩)) := by
  intro s commands
  let := Decomposition.byColumns
  have hrun : ((Store.empty.run commands).extractor? "a").map (fun x =>
      (x.rect, x.mapping, x.window.margin, x.features.shape)) =
        some (⟨0, 0, 0, 0⟩, ⟨⟨3, by decide⟩, ⟨5, by decide⟩⟩, 3, [1, 1, 2]) := by
    decide +kernel
  obtain ⟨x, hx, hvalues⟩ := Option.map_eq_some_iff.1 hrun
  simp only [Prod.mk.injEq] at hvalues
  obtain ⟨hrect, hmapping, hmargin, hshape⟩ := hvalues
  have hloaded : (Store.empty.run (commands.take 1)).accepts (.load "a" (.array s)) = true := by
    decide +kernel
  have hlast : lastImage "a" (Store.empty.accepted commands) = some (.array s) :=
    Store.lastImage_accepted_append_load "a" Store.empty (commands.take 1) (.array s) hloaded
  refine ⟨x, hx, hshape, hlast, ⟨?_, ?_⟩, ?_, ?_⟩
  · simp [Window.HasRoom, hmargin]
  · rw [hrect, hmapping]
    decide
  · simp [Window.HasRoom, hmargin]
  · rw [hrect, hmapping]
    decide

end Facet
