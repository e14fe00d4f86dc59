import Mathlib
import Facet.Proofs.Histories

/-!
# Canonical states

After every run each extractor is in a canonical state: its settings are valid, its model and its
mapping are those of the settings, the size of its grid is counted in the same way everywhere, and
its features are those that its own configuration gives for the image loaded last. So the state of
an extractor depends on its configuration and on this image alone, whatever happened before.
-/

namespace Facet

variable {α : Type} [Scalar α] [Decomposition α]

/-! ## The features of a coherent extractor -/

omit [Decomposition α] in
theorem FitModel.extract_eq (m : FitModel α) (b : Backend) (image : ArrayLike α) (d : Stride) :
    extract b image m.matrix m.window d =
      image.intensity.map fun raster => windowDescriptors raster m.window d m.operator :=
  Facet.extract_eq b image m.window d m.operator (termCount_pos _)

omit [Decomposition α] in
theorem Rectangle.area_of_size (rows cols : Nat) :
    (⟨0, 0, cols - 1, rows - 1⟩ : Rectangle).area = rows * cols := by
  have hwidth : (⟨0, 0, cols - 1, rows - 1⟩ : Rectangle).width = cols := by
    simp [Rectangle.width]
  have hheight : (⟨0, 0, cols - 1, rows - 1⟩ : Rectangle).height = rows := by
    simp [Rectangle.height]
  rw [Rectangle.area, Rectangle.isEmpty, hwidth, hheight]
  split
  · rename_i hempty
    have hsides : cols = 0 ∨ rows = 0 := by simpa using hempty
    rcases hsides with rfl | rfl <;> simp
  · rw [mul_comm]

namespace Extractor

/-- The features that are there after a load are the descriptors of the windows of the image. -/
theorem Coherent.features_eq {x : Extractor α} {image : ArrayLike α} (h : x.Coherent (some image)) :
    ∃ raster, image.intensity = .ok raster ∧
      x.features =
        windowDescriptors raster x.model.value.window x.stride x.model.value.operator := by
  have hloaded := h.loaded image rfl
  rw [← h.window, FitModel.extract_eq] at hloaded
  cases hraster : image.intensity with
  | error e =>
    rw [hraster] at hloaded
    cases hloaded
  | ok raster =>
    rw [hraster] at hloaded
    exact ⟨raster, rfl, (Except.ok.inj hloaded).symm⟩

theorem Coherent.depth_eq {x : Extractor α} {image : Option (ArrayLike α)} (h : x.Coherent image) :
    x.features.depth = x.dimensions := by
  cases image with
  | none =>
    rw [h.empty rfl]
    rfl
  | some image =>
    obtain ⟨raster, -, hfeatures⟩ := h.features_eq
    rw [hfeatures]
    rfl

/-- What is true of an extractor that holds the features of an image, or of none. -/
structure Canonical (x : Extractor α) (image : Option (ArrayLike α)) : Prop where
  /-- The configuration is valid. -/
  settings : (1 ≤ x.order.degree ∧ x.order.degree ≤ 6) ∧
    (3 ≤ x.window.side ∧ x.window.side % 2 = 1) ∧ 1 ≤ x.stride.step
  /-- The model is the one computed for the order and the window of the configuration. -/
  model : x.model.value.IsBuilt ∧ x.model.value.order = x.order ∧ x.model.value.window = x.window
  /-- The mapping has the window and the stride of the configuration. -/
  mapping : x.mapping.window.side = x.window.side ∧ x.mapping.stride.step = x.stride.step ∧
    x.mapping.margin = (x.window.side - 1) / 2
  /-- A descriptor has a component for each monomial but the constant one. -/
  depth : x.features.depth = termCount x.order.degree - 1
  /-- The features are counted in the same way everywhere. -/
  size : x.size = x.features.rows * x.features.cols ∧ x.rect.area = x.size
  /-- Without an image the grid has neither rows nor columns. -/
  empty : image = none → x.features = .empty (termCount x.order.degree - 1)
  /-- The features are those that the configuration gives for the image. -/
  loaded : ∀ i, image = some i →
    extract x.backend i x.model.value.matrix x.window x.stride = .ok x.features

theorem Coherent.dimensions_eq {x : Extractor α} {image : Option (ArrayLike α)}
    (h : x.Coherent image) : x.dimensions = termCount x.order.degree - 1 := by
  rw [← h.order]
  rfl

theorem Coherent.canonical {x : Extractor α} {image : Option (ArrayLike α)} (h : x.Coherent image) :
    x.Canonical image where
  settings := by
    refine ⟨⟨x.order.one_le, x.order.le_six⟩, ⟨?_, ?_⟩, x.stride.one_le⟩
    · exact x.window.three_le_side
    · simp [Window.side]
  model := ⟨h.built, h.order, h.window⟩
  mapping := by
    rw [h.mapping]
    refine ⟨rfl, rfl, ?_⟩
    show x.window.margin = (2 * x.window.margin + 1 - 1) / 2
    omega
  depth := by rw [h.depth_eq, h.dimensions_eq]
  size := by
    refine ⟨rfl, ?_⟩
    rw [rect, Rectangle.area_of_size, size, Grid.size, Nat.cast_mul]
  empty himage := by rw [h.empty himage, h.dimensions_eq]
  loaded := h.loaded

/-! ## Extractors with equal configurations -/

theorem Coherent.model_eq {x y : Extractor α} {image image' : Option (ArrayLike α)}
    (h : x.Coherent image) (h' : y.Coherent image') (horder : x.order = y.order)
    (hwindow : x.window = y.window) : x.model.value = y.model.value := by
  refine h.built.unique h'.built ?_ ?_
  · rw [h.order, h'.order, horder]
  · rw [h.window, h'.window, hwindow]

theorem Coherent.mapping_eq {x y : Extractor α} {image image' : Option (ArrayLike α)}
    (h : x.Coherent image) (h' : y.Coherent image') (hwindow : x.window = y.window)
    (hstride : x.stride = y.stride) : x.mapping = y.mapping := by
  rw [h.mapping, h'.mapping]
  show (⟨x.window, x.stride⟩ : Mapping) = ⟨y.window, y.stride⟩
  rw [hwindow, hstride]

omit [Decomposition α] in
/-- What a load results in depends on the image and the configuration, not on the session. -/
theorem load_features (x : Extractor α) (image : ArrayLike α) (s : Session α) :
    ((x.load image).run s).1.map Extractor.features = (do
      let features ← extract x.backend image x.model.value.matrix x.window x.stride
      let _ ← image.toSamples.mapError Fault.argument
      return features) := by
  unfold load
  rw [Run.run_bind]
  cases extract x.backend image x.model.value.matrix x.window x.stride with
  | error e => rfl
  | ok features =>
    cases hsamples : image.toSamples with
    | error e =>
      simp only [Run.check, Run.run_bind]
      rfl
    | ok samples =>
      simp only [Run.check, Run.run_bind]
      rfl

/-- Extractors that hold the features of the same image, or of none, under equal configurations hold
the same features. -/
theorem Coherent.features_unique {x y : Extractor α} {image : Option (ArrayLike α)}
    (h : x.Coherent image) (h' : y.Coherent image) (horder : x.order = y.order)
    (hwindow : x.window = y.window) (hstride : x.stride = y.stride)
    (hbackend : x.backend = y.backend) : x.features = y.features := by
  have hmodel := h.model_eq h' horder hwindow
  cases image with
  | none => rw [h.empty rfl, h'.empty rfl, dimensions, dimensions, hmodel]
  | some image =>
    have hx := h.loaded image rfl
    rw [hmodel, hwindow, hstride, hbackend, h'.loaded image rfl] at hx
    exact (Except.ok.inj hx).symm

end Extractor

/-- **Every reachable state is canonical.** After every run each extractor is in a canonical state
for the image loaded by the last accepted command about it, if that was a load. It has kept its
stride and its backend since any earlier moment after which its name was neither given to a new
extractor nor took over a configuration. And an extractor with the same order, window, stride and
backend from any run whatsoever has the same model and mapping, makes the same of every image, and
holds the same features if it holds those of the same image. -/
theorem Store.run_canonical (commands : List (Command α)) (name : String) (x : Extractor α)
    (hx : (Store.empty.run commands).extractor? name = some x) :
    x.Canonical (lastImage name (Store.empty.accepted commands)) ∧
    (∀ before after y, commands = before ++ after →
      (Store.empty.run before).extractor? name = some y →
      (∀ c ∈ (Store.empty.run before).accepted after,
        c.target? = some name → c.replaces = false) →
      x.stride = y.stride ∧ x.backend = y.backend) ∧
    ∀ (others : List (Command α)) (other : String) (y : Extractor α),
      (Store.empty.run others).extractor? other = some y →
      x.order = y.order → x.window = y.window → x.stride = y.stride → x.backend = y.backend →
      x.model.value = y.model.value ∧ x.mapping = y.mapping ∧
      (∀ (image : ArrayLike α) (s t : Session α),
        ((x.load image).run s).1.map Extractor.features =
          ((y.load image).run t).1.map Extractor.features) ∧
      (lastImage name (Store.empty.accepted commands) =
          lastImage other (Store.empty.accepted others) → x.features = y.features) := by
  have hcoherent := (run_consistent commands).coherent name x hx
  refine ⟨hcoherent.canonical, ?_, ?_⟩
  · rintro before after y rfl hy hkept
    obtain ⟨z, hz, hstride, hbackend⟩ :=
      (run_consistent before).sampling_run after hy hkept
    rw [run_append, hz] at hx
    cases hx
    exact ⟨hstride, hbackend⟩
  · intro others other y hy horder hwindow hstride hbackend
    have hcoherent' := (run_consistent others).coherent other y hy
    have hmodel := hcoherent.model_eq hcoherent' horder hwindow
    refine ⟨hmodel, hcoherent.mapping_eq hcoherent' hwindow hstride, fun image s t => ?_,
      fun himage => ?_⟩
    · rw [Extractor.load_features, Extractor.load_features, hmodel, hwindow, hstride, hbackend]
    · rw [himage] at hcoherent
      exact hcoherent.features_unique hcoherent' horder hwindow hstride hbackend

/-- An extractor that loads an image and then refuses a setup, and one that is made with another
stride, takes over the configuration of the first, and loads the same image. -/
theorem Store.run_canonical_seven_by_nine :
    letI := Decomposition.byColumns
    let image : ArrayLike (Exact ℚ) :=
      .array (Samples.ofMatrix ⟨7, 9, Table.ofFn fun r c => .number ((r.val : ℚ) * c.val + 1)⟩)
    let make (name : String) (stride : Int) : Command (Exact ℚ) :=
      .construct name (some (.int 1)) (some (.int 7)) (some (.int stride)) none
    let commands := [make "a" 2, .load "a" image, .setup "a" (.int 9) (.int 7)]
    let others := [make "a" 2, make "b" 1, .copy "b" "a", .load "b" image]
    ∃ x y, (Store.empty.run commands).extractor? "a" = some x ∧
      (Store.empty.run others).extractor? "b" = some y ∧
      x.Canonical (some image) ∧ x.model.value = y.model.value ∧ x.features = y.features := by
  intro image make commands others
  let := Decomposition.byColumns
  have hcommands : ((Store.empty.run commands).extractor? "a").map (fun x =>
      (x.order, x.window, x.stride, x.backend)) =
        some (⟨1, by decide, by decide⟩, ⟨3, by decide⟩, ⟨2, by decide⟩, .filter) := by
    decide +kernel
  have hothers : ((Store.empty.run others).extractor? "b").map (fun y =>
      (y.order, y.window, y.stride, y.backend)) =
        some (⟨1, by decide, by decide⟩, ⟨3, by decide⟩, ⟨2, by decide⟩, .filter) := by
    decide +kernel
  obtain ⟨x, hx, hxconfig⟩ := Option.map_eq_some_iff.1 hcommands
  obtain ⟨y, hy, hyconfig⟩ := Option.map_eq_some_iff.1 hothers
  simp only [Prod.mk.injEq] at hxconfig hyconfig
  have hloaded : (Store.empty.run [make "a" 2]).accepts (.load "a" image) = true := by
    decide +kernel
  have hrefused : (Store.empty.run [make "a" 2, .load "a" image]).accepts
      (.setup "a" (.int 9) (.int 7)) = false := by
    decide +kernel
  have hreloaded : (Store.empty.run [make "a" 2, make "b" 1, .copy "b" "a"]).accepts
      (.load "b" image) = true := by
    decide +kernel
  have hlast : lastImage "a" (Store.empty.accepted commands) = some image := by
    refine (lastImage_accepted_append_singleton "a" Store.empty [make "a" 2, .load "a" image]
      (.setup "a" (.int 9) (.int 7))).trans ?_
    rw [if_neg (by simp [hrefused])]
    exact (lastImage_accepted_append_singleton "a" Store.empty [make "a" 2]
      (.load "a" image)).trans (if_pos ⟨hloaded, rfl⟩)
  have hlast' : lastImage "b" (Store.empty.accepted others) = some image :=
    (lastImage_accepted_append_singleton "b" Store.empty [make "a" 2, make "b" 1, .copy "b" "a"]
      (.load "b" image)).trans (if_pos ⟨hreloaded, rfl⟩)
  obtain ⟨hcanonical, -, hsame⟩ := Store.run_canonical commands "a" x hx
  obtain ⟨hmodel, -, -, hfeatures⟩ := hsame others "b" y hy (hxconfig.1.trans hyconfig.1.symm)
    (hxconfig.2.1.trans hyconfig.2.1.symm) (hxconfig.2.2.1.trans hyconfig.2.2.1.symm)
    (hxconfig.2.2.2.trans hyconfig.2.2.2.symm)
  rw [hlast] at hcanonical
  exact ⟨x, y, hx, hy, hcanonical, hmodel, hfeatures (hlast.trans hlast'.symm)⟩

end Facet
