import Mathlib
import Facet.Proofs.Operators
import Facet.Proofs.Places

/-!
# The descriptor at a place and its block

The descriptor at a place is the descriptor of a single window, cut out of the image where the block
of the place lies. So a grid holds exactly the fits of all windows that lie within the image, and a
component has no value exactly where the constant coefficient of its window is zero.
-/

namespace Facet

variable {α : Type}

/-! ## Cutting out a part of an image -/

namespace Samples

/-- The element of an array with two axes at a place, if it has that place. -/
def at? (s : Samples α) (y x : Int) : Option (Sample α) :=
  match s.array with
  | ⟨[m, n], entries⟩ =>
    if h : (y.toNat < m ∧ x.toNat < n) ∧ 0 ≤ y ∧ 0 ≤ x then
      some (Tensor.entry₂ entries ⟨y.toNat, h.1.1⟩ ⟨x.toNat, h.1.2⟩)
    else none
  | _ => none

/-- The part of an image that lies in a rectangle, zero where the rectangle reaches beyond the
image. -/
def crop (s : Samples α) (r : Rectangle) : Samples α where
  element := s.element
  array := ⟨[r.height.toNat, r.width.toNat], Vector.ofFn fun p =>
    (s.at? (r.top + (p.val / r.width.toNat : Nat)) (r.left + (p.val % r.width.toNat : Nat))).getD
      (.whole 0)⟩

end Samples

/-- Whether an element is no number. -/
def Sample.IsLoose : Sample α → Prop
  | .loose _ => True
  | .whole _ | .real _ => False

theorem Samples.at?_mem {s : Samples α} {y x : Int} {p : Sample α} (h : s.at? y x = some p) :
    p ∈ s.array.toList := by
  rcases s with ⟨element, ⟨shape, entries⟩⟩
  unfold at? at h
  split at h
  · rename_i m n entries' harray
    split at h
    · cases harray
      cases h
      simp [Tensor.toList, Tensor.entry₂]
    · cases h
  · cases h

variable [Scalar α]

/-- Converting entry by entry gives what the conversion gives for each. -/
theorem mapM_eq_ok {β γ ε : Type} {n : Nat} {xs : Vector β n} {f : β → Except ε γ} {g : β → γ}
    (h : ∀ x ∈ xs, f x = .ok (g x)) : xs.mapM f = .ok (xs.map g) := by
  have hplaces : xs = (Vector.ofFn id).map fun i : Fin n => xs[i] := by
    ext i hi
    simp
  have hf : (f ∘ fun i : Fin n => xs[i]) = fun i => pure (g xs[i]) := by
    funext i
    exact h _ (Vector.getElem_mem i.isLt)
  have hg : xs.map g = (Vector.ofFn id).map fun i : Fin n => g xs[i] := by
    ext i hi
    simp
  rw [hg]
  conv_lhs => rw [hplaces]
  rw [Vector.mapM_map, hf, Vector.mapM_pure]
  rfl

theorem ArrayLike.toNumbers_array {s : Samples α} (hs : ∀ p ∈ s.array.toList, ¬ p.IsLoose) :
    (ArrayLike.array s).toNumbers = .ok (s.array.map Sample.toReal) := by
  simp only [toNumbers, Tensor.mapExcept]
  rw [mapM_eq_ok (g := Sample.toReal)]
  · rfl
  · intro p hp
    have hp := hs p (Vector.mem_toList_iff.2 hp)
    cases p with
    | loose v => exact absurd trivial hp
    | whole n => rfl
    | real x => rfl

omit [Scalar α] in
theorem Samples.crop_not_loose {s : Samples α} (hs : ∀ p ∈ s.array.toList, ¬ p.IsLoose)
    (r : Rectangle) : ∀ p ∈ (s.crop r).array.toList, ¬ p.IsLoose := by
  intro p hp
  simp only [crop, Tensor.toList, Vector.mem_toList_iff, Vector.mem_ofFn] at hp
  obtain ⟨i, rfl⟩ := hp
  cases hat : s.at? (r.top + (i.val / r.width.toNat : Nat))
      (r.left + (i.val % r.width.toNat : Nat)) with
  | none => exact id
  | some p => exact hs p (at?_mem hat)

/-! ## The window of a block -/

omit [Scalar α] in
theorem Samples.at?_eq (element : ElementType) {H W y x : Nat}
    (entries : Vector (Sample α) (extent [H, W])) (hy : y < H) (hx : x < W) :
    (⟨element, ⟨[H, W], entries⟩⟩ : Samples α).at? y x =
      some (Tensor.entry₂ entries ⟨y, hy⟩ ⟨x, hx⟩) := by
  simp [at?, hy, hx]

theorem Samples.intensity_eq {element : ElementType} {H W : Nat}
    {entries : Vector (Sample α) (extent [H, W])} {raster : Raster α}
    (h : (⟨element, ⟨[H, W], entries⟩⟩ : Samples α).intensity = .ok raster) :
    raster = ⟨H, W, Table.ofFn fun r c => (Tensor.entry₂ entries r c).toReal⟩ := by
  unfold intensity at h
  split at h
  · cases h
  · exact (Except.ok.inj h).symm

theorem Samples.size_of_intensity {s : Samples α} {H W : Nat} (hshape : s.shape = [H, W])
    {raster : Raster α} (hraster : s.intensity = .ok raster) :
    raster.rows = H ∧ raster.cols = W := by
  rcases s with ⟨element, ⟨shape, entries⟩⟩
  obtain rfl : shape = [H, W] := hshape
  rw [intensity_eq hraster]
  exact ⟨rfl, rfl⟩

/-- The elements of the part of an image that a block covers are the pixels of its window. -/
theorem Samples.crop_block_eq_within {s : Samples α} {H W : Nat} (hshape : s.shape = [H, W])
    {raster : Raster α} (hraster : s.intensity = .ok raster) {w : Window} {top left : Nat}
    (hr : top + w.side ≤ raster.rows) (hc : left + w.side ≤ raster.cols) (p : Fin w.area) :
    ((s.at? (top + (p.val / w.side : Nat)) (left + (p.val % w.side : Nat))).getD
        (.whole 0)).toReal = raster.within w top left p := by
  rcases s with ⟨element, ⟨shape, entries⟩⟩
  obtain rfl : shape = [H, W] := hshape
  obtain rfl := intensity_eq hraster
  have hrow : top + p / w.side < H := w.add_row_lt p hr
  have hcol : left + p % w.side < W := w.add_col_lt p hc
  have hat := at?_eq element entries hrow hcol
  push_cast at hat ⊢
  rw [hat, Option.getD_some, Raster.within_eq _ hrow hcol, Table.entry_ofFn]

namespace FitModel

theorem fitWindow_of_shape (m : FitModel α) {t : Tensor α}
    (h : t.shape = [m.window.side, m.window.side]) :
    m.fitWindow t = .ok (m.coefficients fun p =>
      t.entries.get ⟨p.val, by simpa [h, extent, Window.area] using p.isLt⟩) :=
  dif_pos h

/-- The descriptor at a place of the grid is that of the coefficients of its window. -/
theorem values_entry_windowDescriptors (m : FitModel α) (raster : Raster α) (d : Stride)
    (r : Fin (windowCount raster.rows m.window d)) (c : Fin (windowCount raster.cols m.window d)) :
    (windowDescriptors raster m.window d m.operator).values.entry r c =
      quotients (m.coefficients fun p =>
        raster.within m.window (r * d.step) (c * d.step) p) := by
  refine (Table.entry_ofFn _ r c).trans (congrArg Vector.ofFn (funext fun i => ?_))
  simp [coefficients, windowCoefficient, Table.entry]

/-- Fitting the part of an image that a block covers gives the coefficients of its window. -/
theorem fitWindow_crop_block (m : FitModel α) {s : Samples α} {H W : Nat}
    (hshape : s.shape = [H, W]) {raster : Raster α} (hraster : s.intensity = .ok raster)
    (d : Stride) {r c : Nat} (hr : r < windowCount raster.rows m.window d)
    (hc : c < windowCount raster.cols m.window d) :
    m.fitWindow ((s.crop ((⟨m.window, d⟩ : Mapping).block r c)).array.map Sample.toReal) =
      .ok (m.coefficients fun p => raster.within m.window (r * d.step) (c * d.step) p) := by
  have hblock := Mapping.block_eq ⟨m.window, d⟩ r c
  have hheight := Mapping.block_height ⟨m.window, d⟩ r c
  have hwidth := Mapping.block_width ⟨m.window, d⟩ r c
  generalize (⟨m.window, d⟩ : Mapping).block r c = block at hblock hheight hwidth ⊢
  have hsides : ((s.crop block).array.map Sample.toReal).shape =
      [m.window.side, m.window.side] := by
    simp [Samples.crop, Tensor.map, hheight, hwidth]
  rw [m.fitWindow_of_shape hsides]
  refine congrArg _ (congrArg _ (funext fun p => ?_))
  rw [← Samples.crop_block_eq_within hshape hraster ((lt_windowCount_iff _ _ _ _).1 hr)
    ((lt_windowCount_iff _ _ _ _).1 hc) p]
  have hleft : block.left = ((c * d.step : Nat) : Int) := by
    rw [hblock]
    push_cast
    rfl
  have htop : block.top = ((r * d.step : Nat) : Int) := by
    rw [hblock]
    push_cast
    rfl
  simp [Samples.crop, Tensor.map, hwidth, hleft, htop]

end FitModel

theorem Extractor.descriptorOf_array (x : Extractor α) {s : Samples α}
    (hs : ∀ p ∈ s.array.toList, ¬ p.IsLoose) :
    x.descriptorOf (.array s) =
      (x.model.value.fitWindow (s.array.map Sample.toReal)).map quotients := by
  rw [descriptorOf, ArrayLike.toNumbers_array hs, ok_bind]
  cases x.model.value.fitWindow (s.array.map Sample.toReal) <;> rfl

omit [Scalar α] in
theorem Grid.toList_entry_congr {g g' : Grid α} (h : g = g') {r c : Nat} (hr : r < g.rows)
    (hc : c < g.cols) :
    (g.values.entry ⟨r, hr⟩ ⟨c, hc⟩).toList =
      (g'.values.entry ⟨r, h ▸ hr⟩ ⟨c, h ▸ hc⟩).toList := by
  subst h
  rfl

/-! ## Extractors that hold the features of an image -/

namespace Extractor

/-- The features are the descriptors of the windows of an array of samples. -/
structure Holds (x : Extractor α) (s : Samples α) (raster : Raster α) : Prop where
  /-- The samples have intensities. -/
  intensity : s.intensity = .ok raster
  /-- Places are mapped by the window of the model. -/
  mapping : x.mapping = ⟨x.model.value.window, x.stride⟩
  /-- The features are the descriptors of the windows of the intensities. -/
  features : x.features =
    windowDescriptors raster x.model.value.window x.stride x.model.value.operator

theorem Coherent.holds [Decomposition α] {x : Extractor α} {image : ArrayLike α}
    (h : x.Coherent (some image)) {s : Samples α} (hs : image.toSamples = .ok s) :
    ∃ raster, x.Holds s raster := by
  obtain ⟨raster, hraster, hfeatures⟩ := h.features_eq
  refine ⟨raster, ?_, ?_, hfeatures⟩
  · rw [ArrayLike.intensity, hs] at hraster
    exact mapError_eq_ok.1 hraster
  · rw [h.mapping, h.window]
    rfl

variable {x : Extractor α} {s : Samples α} {raster : Raster α}

theorem Holds.inside_iff (h : x.Holds s raster) (row col : Int) :
    (x.block row col).Inside ⟨0, 0, raster.cols - 1, raster.rows - 1⟩ ↔
      x.rect.contains ⟨col, row⟩ := by
  rw [block, Mapping.block_inside_iff, rect_contains_iff, h.mapping, h.features]
  rfl

/-- What a place selects are the quotients of the fit of its block. -/
theorem Holds.select_eq_fitWindow (h : x.Holds s raster) {H W : Nat} (hshape : s.shape = [H, W])
    {row col : Int} (hplace : x.rect.contains ⟨col, row⟩) :
    ∃ v top left,
      x.select (.list [.int row, .int col]) = .ok (.descriptor v) ∧
      x.model.value.fitWindow ((s.crop (x.block row col)).array.map Sample.toReal) =
        .ok (x.model.value.coefficients fun p =>
          raster.within x.model.value.window top left p) ∧
      v.toList = (quotients (x.model.value.coefficients fun p =>
        raster.within x.model.value.window top left p)).toList := by
  obtain ⟨⟨hcol, hcols⟩, hrow, hrows⟩ := (x.rect_contains_iff row col).1 hplace
  obtain ⟨r, rfl⟩ := Int.eq_ofNat_of_zero_le hrow
  obtain ⟨c, rfl⟩ := Int.eq_ofNat_of_zero_le hcol
  have hr : r < x.features.rows := by omega
  have hc : c < x.features.cols := by omega
  have hr' : r < windowCount raster.rows x.model.value.window x.stride := by
    rw [h.features] at hr
    exact hr
  have hc' : c < windowCount raster.cols x.model.value.window x.stride := by
    rw [h.features] at hc
    exact hc
  refine ⟨x.features.values.entry ⟨r, hr⟩ ⟨c, hc⟩, r * x.stride.step, c * x.stride.step,
    select_of_contains rfl rfl, ?_, ?_⟩
  · rw [block, h.mapping]
    exact x.model.value.fitWindow_crop_block hshape h.intensity x.stride hr' hc'
  · rw [Grid.toList_entry_congr h.features hr hc]
    exact congrArg _
      (x.model.value.values_entry_windowDescriptors raster x.stride ⟨r, hr'⟩ ⟨c, hc'⟩)

/-- The block of a place is a window around the pixel that the place is mapped to. -/
theorem Holds.block_shape (h : x.Holds s raster) (row col : Int) :
    let block := x.block row col
    let centre := x.mapping.featureToImage ⟨col, row⟩
    (block.width = x.model.value.window.side ∧ block.height = x.model.value.window.side) ∧
      (centre.x - block.left = block.right - centre.x ∧
        centre.y - block.top = block.bottom - centre.y) := by
  have hwidth := x.mapping.block_width row col
  have hheight := x.mapping.block_height row col
  obtain ⟨⟨hleft, hright⟩, htop, hbottom⟩ := x.mapping.block_centre row col
  refine ⟨⟨?_, ?_⟩, hleft.trans hright.symm, htop.trans hbottom.symm⟩
  · rw [block, hwidth, h.mapping]
  · rw [block, hheight, h.mapping]

end Extractor

/-! ## Components without a value -/

section Exact

variable {K : Type} [Field K] [LinearOrder K]

/-- Whether an element is a number with a value. -/
def Sample.IsNumber : Sample (Exact K) → Prop
  | .whole _ => True
  | .real x => x.IsNumber
  | .loose _ => False

omit [Field K] [LinearOrder K] in
theorem Sample.IsNumber.not_loose {p : Sample (Exact K)} (h : p.IsNumber) : ¬ p.IsLoose := by
  cases p <;> simp_all [IsNumber, IsLoose]

theorem Sample.IsNumber.toReal {p : Sample (Exact K)} (h : p.IsNumber) : p.toReal.IsNumber := by
  cases p with
  | whole n => exact Exact.isNumber_number _
  | real x => exact h
  | loose v => exact h.elim

theorem Samples.isNumber_within {s : Samples (Exact K)} {H W : Nat} (hshape : s.shape = [H, W])
    (hs : ∀ p ∈ s.array.toList, p.IsNumber) {raster : Raster (Exact K)}
    (hraster : s.intensity = .ok raster) (w : Window) (top left p : Nat) :
    (raster.within w top left p).IsNumber := by
  rcases s with ⟨element, ⟨shape, entries⟩⟩
  obtain rfl : shape = [H, W] := hshape
  obtain rfl := intensity_eq hraster
  rw [Raster.within]
  split
  · rw [Table.entry_ofFn]
    exact (hs _ (by simp [Tensor.toList, Tensor.entry₂])).toReal
  · exact Exact.isNumber_number 0

/-- An operator of numbers makes numbers of numbers. -/
theorem FitModel.isNumber_coefficients {m : FitModel (Exact K)}
    {operator : Table K m.order.terms m.window.area} (hm : m.operator = operator.numbers)
    {values : Fin m.window.area → Exact K} (hvalues : ∀ p, (values p).IsNumber)
    (i : Fin m.order.terms) : ((m.coefficients values).get i).IsNumber := by
  choose f hf using hvalues
  obtain rfl : values = fun p => .number (f p) := funext hf
  refine ⟨∑ p, operator.entry i p * f p, ?_⟩
  rw [← sumOver_number]
  simp [coefficients, hm]

/-- A component has no value exactly if the coefficient that all are divided by is zero. -/
theorem quotients_eq_undefined_iff {n : Nat} {c : Vector (Exact K) n}
    (hc : ∀ i, (c.get i).IsNumber) (i : Fin (n - 1)) :
    (quotients c).get i = .undefined ↔ c.get ⟨0, pos_of_pred i⟩ = .number 0 := by
  obtain ⟨a, ha⟩ := hc ⟨i.val + 1, succ_lt_of_pred i⟩
  obtain ⟨b, hb⟩ := hc ⟨0, pos_of_pred i⟩
  have hquotient : (quotients c).get i = .number a / .number b := by
    rw [← ha, ← hb]
    simp [quotients]
  rw [hquotient, hb, Exact.number_div_eq_undefined_iff, Exact.number.injEq]

variable [IsStrictOrderedRing K] [Decomposition (Exact K)]

/-- **A place has a descriptor exactly if its block lies within the image, and the descriptor is the
fit of the block.** For every extractor of every run that holds the features of an image of numbers
with two axes and for all whole numbers, whatever their signs: the place is refused unless the block
lies within the image, which is the case exactly if the rectangle of the features contains the
place. It is refused as an index, or, where the message cannot show a number of so many digits, for
this number. Otherwise the block is as wide and high as the window, its centre is the pixel that the
place is mapped to, and the descriptor is that of the part of the image which the block covers; its
components have no value exactly if the constant coefficient of that part is zero. -/
theorem select_eq_descriptorOf_crop (hsvd : Decomposition.KeepsNumbers K)
    (commands : List (Command (Exact K))) (name : String) (x : Extractor (Exact K))
    (hx : (Store.empty.run commands).extractor? name = some x) (image : ArrayLike (Exact K))
    (himage : lastImage name (Store.empty.accepted commands) = some image)
    (s : Samples (Exact K)) (H W : Nat) (hs : image.toSamples = .ok s) (hshape : s.shape = [H, W])
    (hnumbers : ∀ p ∈ s.array.toList, p.IsNumber) (row col : Int) :
    let item := x.select (.list [.int row, .int col])
    let block := x.block row col
    let centre := x.mapping.featureToImage ⟨col, row⟩
    ((∃ v, item = .ok v) ↔ block.Inside ⟨0, 0, W - 1, H - 1⟩) ∧
    (block.Inside ⟨0, 0, W - 1, H - 1⟩ ↔ x.rect.contains ⟨col, row⟩) ∧
    (¬ x.rect.contains ⟨col, row⟩ → ∃ e, item = .error e ∧
      ((Text.isShowable row ∧ Text.isShowable col) → e.kind = .index) ∧
      (¬(Text.isShowable row ∧ Text.isShowable col) → e.kind = .value)) ∧
    (block.Inside ⟨0, 0, W - 1, H - 1⟩ →
      (block.width = x.window.side ∧ block.height = x.window.side) ∧
      (centre.x - block.left = block.right - centre.x ∧
        centre.y - block.top = block.bottom - centre.y) ∧
      ∃ v u c, item = .ok (.descriptor v) ∧ x.descriptorOf (.array (s.crop block)) = .ok u ∧
        v.toList = u.toList ∧
        x.model.value.fitWindow ((s.crop block).array.map Sample.toReal) = .ok c ∧
        ∀ i, u.get i = .undefined ↔ c.get ⟨0, termCount_pos _⟩ = .number 0) := by
  have hcoherent := (Store.run_consistent commands).coherent name x hx
  rw [himage] at hcoherent
  obtain ⟨operator, hoperator⟩ := hcoherent.built.exists_operator hsvd
  obtain ⟨raster, hholds⟩ := hcoherent.holds hs
  have hinside := hholds.inside_iff row col
  rw [(Samples.size_of_intensity hshape hholds.intensity).1,
    (Samples.size_of_intensity hshape hholds.intensity).2] at hinside
  have hrefused (h : ¬ x.rect.contains ⟨col, row⟩) := Extractor.select_of_not_contains h
  intro item block centre
  refine ⟨⟨fun hitem => hinside.2 ?_, fun h => ?_⟩, hinside,
    fun h => ⟨_, hrefused h, x.outside_kind row col⟩, fun h => ?_⟩
  · obtain ⟨v, hv⟩ := hitem
    by_contra h
    have hfault := (hrefused h).symm.trans hv
    cases hfault
  · obtain ⟨v, -, -, hv, -⟩ := hholds.select_eq_fitWindow hshape (hinside.1 h)
    exact ⟨_, hv⟩
  · obtain ⟨hsides, hcentre⟩ := hholds.block_shape row col
    rw [hcoherent.window] at hsides
    obtain ⟨v, top, left, hv, hfit, hquotients⟩ :=
      hholds.select_eq_fitWindow hshape (hinside.1 h)
    refine ⟨hsides, hcentre, v, _, _, hv, ?_, hquotients, hfit, ?_⟩
    · rw [x.descriptorOf_array (Samples.crop_not_loose (fun p hp => (hnumbers p hp).not_loose) _)]
      exact congrArg _ hfit
    · exact quotients_eq_undefined_iff (FitModel.isNumber_coefficients hoperator fun p =>
        Samples.isNumber_within hshape hnumbers hholds.intensity _ _ _ _)

end Exact

/-- An image of seven rows and nine columns under windows of seven pixels, two pixels apart: there
are two places. The place in the row above the first is refused as an index, and a row far below the
last for the number of its digits. -/
theorem select_eq_descriptorOf_crop_seven_by_nine :
    letI := Decomposition.byColumns
    let s : Samples (Exact ℚ) :=
      ⟨.integer false 8, ⟨[7, 9], Vector.ofFn fun p => .whole (p.val % 5 : Nat)⟩⟩
    let commands : List (Command (Exact ℚ)) :=
      [.construct "a" (some (.int 1)) (some (.int 7)) (some (.int 2)) none, .load "a" (.array s)]
    ∃ x, (Store.empty.run commands).extractor? "a" = some x ∧
      (∃ v u, x.select (.list [.int 0, .int 1]) = .ok (.descriptor v) ∧
        x.descriptorOf (.array (s.crop (x.block 0 1))) = .ok u ∧ v.toList = u.toList) ∧
      (∃ e, x.select (.list [.int (-1), .int 0]) = .error e ∧ e.kind = .index) ∧
      ∃ e, x.select (.list [.int ((10 ^ 4300 : Nat) : Int), .int 0]) = .error e ∧
        e.kind = .value := by
  intro s commands
  let := Decomposition.byColumns
  have hrun : ((Store.empty.run commands).extractor? "a").map Extractor.rect =
      some ⟨0, 0, 1, 0⟩ := by
    decide +kernel
  obtain ⟨x, hx, hrect⟩ := Option.map_eq_some_iff.1 hrun
  have hloaded : (Store.empty.run (commands.take 1)).accepts (.load "a" (.array s)) = true := by
    decide +kernel
  have hlast : lastImage "a" (Store.empty.accepted commands) = some (.array s) :=
    (Store.lastImage_accepted_append_singleton "a" Store.empty (commands.take 1)
      (.load "a" (.array s))).trans (if_pos ⟨hloaded, rfl⟩)
  have hnumbers : ∀ p ∈ s.array.toList, p.IsNumber := by
    intro p hp
    simp only [s, Tensor.toList, Vector.mem_toList_iff, Vector.mem_ofFn] at hp
    obtain ⟨i, rfl⟩ := hp
    trivial
  have hplace := select_eq_descriptorOf_crop (fun a => ⟨_, rfl⟩) commands "a" x hx (.array s) hlast
    s 7 9 rfl rfl hnumbers
  obtain ⟨-, hinside, -, hfit⟩ := hplace 0 1
  obtain ⟨-, -, habove, -⟩ := hplace (-1) 0
  obtain ⟨-, -, hbelow, -⟩ := hplace ((10 ^ 4300 : Nat) : Int) 0
  rw [hrect] at hinside habove hbelow
  obtain ⟨-, -, v, u, -, hv, hu, hvu, -⟩ := hfit (hinside.2 (by decide))
  obtain ⟨e, he, hindex, -⟩ := habove (by decide)
  obtain ⟨e', he', -, hvalue⟩ := hbelow (by decide +kernel)
  exact ⟨x, hx, ⟨v, u, hv, hu, hvu⟩, ⟨e, he, hindex (by decide +kernel)⟩,
    e', he', hvalue (by decide +kernel)⟩

end Facet
