import Mathlib
import Facet.Extractor.Store
import Facet.Proofs.Extraction
import Facet.Proofs.Outcomes
import Facet.Proofs.Settings

/-!
# Operations on extractors

What an extractor holds besides its settings and its backend follows from these two and from the
image loaded last: an extractor is coherent if its model, its mapping and its features are those
that follow. Models come from the cache, so this rests on a property of the session, that the cache
holds no model but those computed for their order and window; every operation keeps it, and every
operation makes a coherent extractor out of a coherent one.
-/

namespace Facet

variable {α : Type} [Scalar α] [Decomposition α]

/-! ## Models -/

/-- Whether a model is the one that is computed for its order and window. -/
def FitModel.IsBuilt (m : FitModel α) : Prop :=
  ∃ fitted, FitModel.build m.order m.window = .ok (m, fitted)

/-- What is computed for an order and a window belongs to them. -/
theorem FitModel.of_build {k : Order} {w : Window} {m : FitModel α}
    {fitted : Fitted α w.area k.terms} (h : FitModel.build k w = .ok (m, fitted)) :
    m.IsBuilt ∧ m.order = k ∧ m.window = w := by
  have hm := h
  simp only [build, bind_eq_ok] at hm
  obtain ⟨f, -, hm⟩ := hm
  cases hm
  exact ⟨⟨_, h⟩, rfl, rfl⟩

/-- There is only one model for an order and a window. -/
theorem FitModel.IsBuilt.unique {m m' : FitModel α} (h : m.IsBuilt) (h' : m'.IsBuilt)
    (horder : m.order = m'.order) (hwindow : m.window = m'.window) : m = m' := by
  obtain ⟨fitted, h⟩ := h
  obtain ⟨fitted', h'⟩ := h'
  rcases m with ⟨k, w, a, x⟩
  rcases m' with ⟨k', w', a', x'⟩
  obtain rfl : k = k' := horder
  obtain rfl : w = w' := hwindow
  rw [h] at h'
  cases h'
  rfl

/-- A session whose cache holds no model but those computed for their order and window. -/
def Session.Sound (s : Session α) : Prop := ∀ m ∈ s.models.entries, m.value.IsBuilt

theorem Session.start_sound : (Session.start : Session α).Sound := nofun

omit [Scalar α] [Decomposition α] in
/-- A cache holds nothing after a model was put in front but this model and what it held before. -/
theorem ModelCache.mem_touch {c : ModelCache α} {m other : Shared (FitModel α)}
    (h : other ∈ (c.touch m).entries) : other = m ∨ other ∈ c.entries := by
  rcases List.mem_cons.1 (List.mem_of_mem_take h) with rfl | h
  · exact .inl rfl
  · exact .inr (List.mem_filter.1 h).1

theorem Session.Sound.touch {s : Session α} (h : s.Sound) {m : Shared (FitModel α)}
    (hm : m.value.IsBuilt) : Session.Sound { s with models := s.models.touch m } := by
  intro other hother
  rcases ModelCache.mem_touch hother with rfl | hother
  · exact hm
  · exact h other hother

/-- A model that is kept moves to the front. -/
theorem run_modelFor_of_some {k : Order} {w : Window} {s : Session α} {m : Shared (FitModel α)}
    (h : s.models.find? k w = some m) :
    (modelFor k w).run s = (.ok m, { s with models := s.models.touch m }) := by
  rw [modelFor, Run.run_bind, Run.run_get]
  dsimp only
  rw [h]
  rfl

/-- A model that is not kept is computed, unless that is refused. It gets the next tag and comes to
the front. -/
theorem run_modelFor_of_none {k : Order} {w : Window} {s : Session α}
    (h : s.models.find? k w = none) :
    (modelFor k w).run s =
      match FitModel.build k w with
      | .error e => (.error e, s)
      | .ok (model, fitted) =>
        let shared : Shared (FitModel α) := ⟨s.nextTag, model⟩
        let deficient : List (Event α) :=
          if fitted.rank < k.terms then [.rankDeficient fitted.rank k.terms] else []
        (.ok shared, ⟨s.models.touch shared,
          .modelReady k w fitted.condition :: (deficient ++ s.journal), s.nextTag + 1⟩) := by
  rw [modelFor, Run.run_bind, Run.run_get]
  dsimp only
  rw [h]
  dsimp only
  cases FitModel.build (α := α) k w with
  | error e => rfl
  | ok built =>
    obtain ⟨model, fitted⟩ := built
    rw [Run.check, pure_bind]
    by_cases hrank : fitted.rank < k.terms
    · simp only [if_pos hrank]
      rfl
    · simp only [if_neg hrank]
      rfl

/-- Whether it comes from the cache or not, the model for an order and a window is the one computed
for them. -/
theorem modelFor_yields (k : Order) (w : Window) :
    Run.Yields Session.Sound (modelFor (α := α) k w) fun m =>
      m.value.IsBuilt ∧ m.value.order = k ∧ m.value.window = w := by
  intro s hs
  cases hfind : s.models.find? k w with
  | some kept =>
    have hkept : kept.value.IsBuilt := hs kept (List.mem_of_find?_eq_some hfind)
    have hfits := List.find?_some hfind
    simp only [ModelCache.fits, Bool.and_eq_true, decide_eq_true_eq] at hfits
    rw [run_modelFor_of_some hfind]
    refine ⟨hs.touch hkept, fun m hm => ?_⟩
    cases hm
    exact ⟨hkept, hfits⟩
  | none =>
    rw [run_modelFor_of_none hfind]
    cases hbuild : FitModel.build (α := α) k w with
    | error e => exact ⟨hs, nofun⟩
    | ok built =>
      obtain ⟨model, fitted⟩ := built
      have hmodel := FitModel.of_build hbuild
      have htouch := hs.touch (m := ⟨s.nextTag, model⟩) hmodel.1
      refine ⟨htouch, fun m hm => ?_⟩
      cases hm
      exact hmodel

/-! ## Extractors -/

namespace Extractor

/-- What an extractor holds follows from its settings, its backend, and the image that it loaded
last, or that it loaded none. -/
structure Coherent (x : Extractor α) (image : Option (ArrayLike α)) : Prop where
  /-- The model is the one computed for its order and window. -/
  built : x.model.value.IsBuilt
  /-- It is a model for the order. -/
  order : x.model.value.order = x.order
  /-- It is a model for the window. -/
  window : x.model.value.window = x.window
  /-- The mapping is that of the settings. -/
  mapping : x.mapping = .ofSettings x.settings.value
  /-- Without an image there are no features. -/
  empty : image = none → x.features = .empty x.dimensions
  /-- The features are those of the image. -/
  loaded : ∀ i, image = some i →
    extract x.backend i x.model.value.matrix x.window x.stride = .ok x.features

omit [Decomposition α] in
/-- Two extractors have the same stride and backend. -/
def SameSampling (x y : Extractor α) : Prop := y.stride = x.stride ∧ y.backend = x.backend

theorem ofSettings_yields (s : Settings) (backend : Option Value) :
    Run.Yields Session.Sound (ofSettings (α := α) s backend) fun x =>
      x.Coherent none ∧ x.settings.value = s := by
  refine Run.yields_bind (Run.yields_share fun _ h => h) fun settings hsettings => ?_
  refine Run.yields_bind (Run.yields_under (modelFor_yields s.order s.window)) fun model hm => ?_
  refine Run.yields_bind Run.yields_check fun backend _ => Run.yields_pure ⟨?_, hsettings⟩
  obtain ⟨hbuilt, horder, hwindow⟩ := hm
  exact
    { built := hbuilt
      order := by rw [horder, Extractor.order, hsettings]
      window := by rw [hwindow, Extractor.window, hsettings]
      mapping := by rw [hsettings]
      empty := fun _ => rfl
      loaded := nofun }

theorem construct_yields (order window stride backend : Option Value) :
    Run.Yields Session.Sound (construct (α := α) order window stride backend) fun x =>
      x.Coherent none :=
  Run.yields_bind Run.yields_check fun s _ =>
    (ofSettings_yields s backend).mono fun _ hx => hx.1

theorem fromConfiguration_yields (config : Value) :
    Run.Yields Session.Sound (fromConfiguration (α := α) config) fun x => x.Coherent none := by
  refine Run.yields_bind Run.yields_check fun entries _ => ?_
  refine Run.yields_bind Run.yields_check fun section_ _ => ?_
  exact Run.yields_bind Run.yields_check fun s _ =>
    (ofSettings_yields s _).mono fun _ hx => hx.1

theorem prepare_yields (x : Extractor α) (order window : Value) :
    Run.Yields Session.Sound (x.prepare order window) fun result =>
      result.1.stride = x.stride ∧ result.2.value.IsBuilt ∧
        result.2.value.order = result.1.order ∧ result.2.value.window = result.1.window := by
  refine Run.yields_bind Run.yields_check fun s hs => ?_
  refine Run.yields_bind (Run.yields_under (modelFor_yields s.order s.window)) fun model hm => ?_
  exact Run.yields_pure ⟨Settings.stride_of_withFit hs, hm⟩

/-- A refused setup has no result. -/
theorem reject_yields {β : Type} {good : β → Prop} (order window : Value) (e : Fault) :
    Run.Yields Session.Sound (reject (α := α) order window e) good := by
  refine Run.yields_answer fun cause => ?_
  split
  · exact Run.yields_bind (Run.yields_note fun _ h => h) fun _ _ => Run.yields_throw
  · exact Run.yields_throw

/-- A setup keeps the stride and the backend, whatever the extractor held before. -/
theorem setup_yields (x : Extractor α) (order window : Value) :
    Run.Yields Session.Sound (x.setup order window) fun y =>
      y.Coherent none ∧ x.SameSampling y := by
  refine Run.yields_bind (Run.yields_outcome (prepare_yields x order window))
    fun result hresult => ?_
  rcases result with e | ⟨s, model⟩
  · exact reject_yields order window e
  · obtain ⟨hstride, hbuilt, horder, hwindow⟩ := hresult _ rfl
    refine Run.yields_bind (Run.yields_share fun _ h => h) fun shared hshared => ?_
    refine Run.yields_bind (Run.yields_note fun _ h => h) fun _ _ => Run.yields_pure ⟨?_, ?_, rfl⟩
    · exact
        { built := hbuilt
          order := by rw [Extractor.order, hshared, horder]
          window := by rw [Extractor.window, hshared, hwindow]
          mapping := by rw [hshared]
          empty := fun _ => rfl
          loaded := nofun }
    · rw [Extractor.stride, hshared, hstride]

theorem clear_yields (x : Extractor α) :
    Run.Yields Session.Sound x.clear fun y => y.Coherent none ∧ x.SameSampling y :=
  Run.yields_bind (setup_yields x _ _) fun _ hy =>
    Run.yields_bind (Run.yields_note fun _ h => h) fun _ _ => Run.yields_pure hy

/-- A load keeps everything but the features. -/
theorem load_yields {x : Extractor α} {old : Option (ArrayLike α)} (h : x.Coherent old)
    (image : ArrayLike α) :
    Run.Yields Session.Sound (x.load image) fun y =>
      y.Coherent (some image) ∧ x.SameSampling y := by
  refine Run.yields_bind Run.yields_check fun features hfeatures => ?_
  refine Run.yields_bind Run.yields_check fun samples _ => ?_
  refine Run.yields_bind (Run.yields_note fun _ h => h) fun _ _ => Run.yields_pure ⟨?_, rfl, rfl⟩
  exact
    { h with
      empty := nofun
      loaded := fun i hi => by cases hi; exact hfeatures }

theorem unload_yields {x : Extractor α} {old : Option (ArrayLike α)} (h : x.Coherent old) :
    Run.Yields Session.Sound x.unload fun y => y.Coherent none ∧ x.SameSampling y :=
  Run.yields_bind (Run.yields_note fun _ h => h) fun _ _ =>
    Run.yields_pure ⟨{ h with empty := fun _ => rfl, loaded := nofun }, rfl, rfl⟩

theorem Coherent.copyConfiguration {x : Extractor α} {old : Option (ArrayLike α)}
    (h : x.Coherent old) : x.copyConfiguration.Coherent none :=
  { h with empty := fun _ => rfl, loaded := nofun }

/-! ## Records -/

/-- Neither has a refused record. -/
theorem rejectRecord_yields {β : Type} {good : β → Prop} (r : Record) (e : Fault) :
    Run.Yields Session.Sound (rejectRecord (α := α) r e) good :=
  Run.yields_answer fun _ =>
    Run.yields_bind (Run.yields_note fun _ h => h) fun _ _ => Run.yields_throw

theorem configure_yields (x : Extractor α) (r : Record) :
    Run.Yields Session.Sound (x.configure r) fun y => y.Coherent none ∧ x.SameSampling y := by
  refine Run.yields_bind (Run.yields_outcome (setup_yields x _ _)) fun result hresult => ?_
  rcases result with e | y
  · exact rejectRecord_yields r e
  · exact Run.yields_pure (hresult y rfl)

/-- An extractor that is configured by a record keeps its stride and its backend. -/
theorem ofData_yields (data : Value) (target : Option (Extractor α)) :
    Run.Yields Session.Sound (ofData data target) fun y =>
      y.Coherent none ∧ ∀ x, target = some x → x.SameSampling y := by
  refine Run.yields_bind Run.yields_check fun r _ => ?_
  cases target with
  | some x =>
    refine (configure_yields x r).mono fun y hy => ⟨hy.1, fun x' hx => ?_⟩
    cases hx
    exact hy.2
  | none =>
    refine Run.yields_bind (construct_yields _ _ _ _) fun x _ => ?_
    exact (configure_yields x r).mono fun y hy => ⟨hy.1, nofun⟩

theorem readFrom_yields (s : ByteStream) (target : Option (Extractor α)) :
    Run.Yields Session.Sound (readFrom s target).1 fun y =>
      y.Coherent none ∧ ∀ x, target = some x → x.SameSampling y := by
  unfold readFrom
  split
  split
  · exact Run.yields_throw
  · exact ofData_yields _ _

end Extractor

end Facet
