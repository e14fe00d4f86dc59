import Facet.Extraction.Extract
import Facet.Extractor.Session
import Facet.Plane.Mapping

/-!
# Feature extractors

An extractor holds a configuration and the grid of features that it last extracted. What follows
from the configuration is held beside it: the model of its order and window, and the mapping of its
window and stride. Configurations and models are shared between extractors and never change; only
the grid belongs to one extractor alone.

Every operation builds the new extractor as a whole once nothing can be refused any more. So a
refused operation leaves all extractors as they were.
-/

namespace Facet

/-- A feature extractor. -/
structure Extractor (α : Type) where
  /-- The configuration. -/
  settings : Shared Settings
  /-- The model of its order and window. -/
  model : Shared (FitModel α)
  /-- The way in which the operator is applied. -/
  backend : Backend
  /-- The mapping of its window and stride. -/
  mapping : Mapping
  /-- The features. -/
  features : Grid α

namespace Extractor

variable {α : Type} [Scalar α]

/-! ## What can be asked of an extractor -/

/-- The order of the polynomial. -/
def order (x : Extractor α) : Order := x.settings.value.order

/-- The window. -/
def window (x : Extractor α) : Window := x.settings.value.window

/-- The stride. -/
def stride (x : Extractor α) : Stride := x.settings.value.stride

/-- The number of coefficients of a descriptor. -/
def dimensions (x : Extractor α) : Nat := x.model.value.dimensions

/-- The number of features. -/
def size (x : Extractor α) : Nat := x.features.size

/-- The rectangle of the places that have a feature. -/
def rect (x : Extractor α) : Rectangle := ⟨0, 0, x.features.cols - 1, x.features.rows - 1⟩

/-- The text of an extractor. -/
def text (x : Extractor α) : Except ArgumentFault String :=
  textShowing [x.order.value, x.window.value, x.stride.value]
    ("PolyImage(order=" ++ toString x.order.degree ++ ", window_size=" ++ toString x.window.side
      ++ ", downsample=" ++ toString x.stride.step ++ ", backend='" ++ x.backend.name ++ "', nr="
      ++ toString x.features.rows ++ ", nc=" ++ toString x.features.cols ++ ")")

/-- The properties of an extractor, none of which can be written. -/
def properties : List String :=
  ["backend", "config", "downsample", "features", "fit_model", "nc", "nr", "num_dimensions",
    "order", "size", "window_size"]

/-- Why a member cannot be written: properties cannot, and everything else can. -/
def assignFault? (name : String) : Option Fault :=
  if properties.contains name then some (.member (.noSetter name)) else none

/-! ## Places -/

/-- What a place of any kind selects. Truth values are no places: they stand for a whole axis, in a
copy that has one more axis in front, along which there is one entry or none. -/
inductive Selection (α : Type) (depth : Nat) where
  /-- The descriptor at a place. -/
  | descriptor (v : Vector α depth)
  /-- The descriptors of a row, as a grid of one row or none. -/
  | row (g : Grid α)
  /-- The whole grid, once or not at all. -/
  | grids (copies : List (Grid α))

/-- The refusal of a place at which there is no feature. -/
def outside (x : Extractor α) (row col : Value) : ArgumentFault :=
  .showing [row, col] (.outOfGrid row.plain col.plain x.features.rows x.features.cols)

/-- The descriptor at a place. -/
def descriptorAt (x : Extractor α) (row col : Int) :
    Except ArgumentFault (Vector α x.features.depth) :=
  let g := x.features
  match g.list? row.toNat col.toNat with
  | some descriptor =>
    if 0 ≤ row ∧ 0 ≤ col then .ok descriptor else .error (x.outside (.int row) (.int col))
  | none => .error (x.outside (.int row) (.int col))

/-- A row of the features, once or not at all. -/
def rowAt (x : Extractor α) (row : Int) (once : Bool) :
    Except ArgumentFault (Selection α x.features.depth) :=
  let g := x.features
  if h : row.toNat < g.rows then
    .ok (.row (Grid.ofFn (if once then 1 else 0) g.cols g.depth fun _ c i =>
      g.entry ⟨row.toNat, h⟩ c i))
  else .error (.beyondAxis row 0 g.rows)

/-- What is selected by a pair of any kind. Both parts have to be numbers on their axes; a number
beside a truth value always counts rows. -/
def select (x : Extractor α) (index : Value) :
    Except ArgumentFault (Selection α x.features.depth) := do
  let (row, col) ← index.pair
  let g := x.features
  if !(← Value.onGrid row col g.rows g.cols) then throw (x.outside row col)
  match row, col with
  | .int r, .int c => return .descriptor (← x.descriptorAt r c)
  | .int r, .bool once | .bool once, .int r => x.rowAt r once
  | .bool a, .bool b => return .grids (if a && b then [g] else [])
  | _, _ => throw .badIndex

/-- The fault of writing into what is selected. Descriptors are part of the features, while what is
copied can be written to wherever it has an entry. -/
def Selection.writeFault? {depth : Nat} : Selection α depth → Option Fault
  | .descriptor _ => some (.member .readOnly)
  | .row g => if g.rows = 0 then some (.argument (.beyondAxis 0 0 0)) else none
  | .grids copies => if copies.isEmpty then some (.argument (.beyondAxis 0 0 0)) else none

/-- The descriptor of a single window. -/
def descriptorOf (x : Extractor α) (window : ArrayLike α) :
    Except ArgumentFault (Vector α (x.model.value.order.terms - 1)) := do
  return quotients (← x.model.value.fitWindow (← window.toNumbers))

/-- The image pixels from which the feature at a place is computed. -/
def block (x : Extractor α) (row col : Int) : Rectangle := x.mapping.block row col

/-! ## Configuration -/

variable [Decomposition α]

/-- An extractor without features, for valid settings. -/
def ofSettings (s : Settings) (backend : Option Value) : Run α Fault (Extractor α) := do
  let settings ← Run.share s
  let model ← (modelFor s.order s.window).under .fit
  let backend ← Run.check id (Backend.ofValue? backend)
  return ⟨settings, model, backend, Mapping.ofSettings s, .empty model.value.dimensions⟩

/-- A new extractor. What is not given takes its default. The settings are checked first, then the
fit is computed, and the backend is checked last. -/
def construct (order window stride backend : Option Value) : Run α Fault (Extractor α) := do
  ofSettings (← Run.check id (Settings.ofValues order window stride)) backend

/-- A value that should be a mapping, by its entries. -/
def entriesOf : Value → Except Fault (List (Value × Value))
  | .mapping entries => .ok entries
  | v => .error (.member (.missing v.kind "get"))

/-- A new extractor from a configuration of any kind: either the section for extractors itself, or a
mapping in which that section stands. -/
def fromConfiguration (config : Value) : Run α Fault (Extractor α) := do
  let entries ← Run.check id (entriesOf config)
  let section_ ← Run.check id (entriesOf ((Value.field? "poly_image" entries).getD config))
  ofSettings (← Run.check id (Settings.ofEntries section_)) (Value.field? "backend" section_)

/-- The settings and the model for a new order and window. -/
def prepare (x : Extractor α) (order window : Value) :
    Run α Fault (Settings × Shared (FitModel α)) := do
  let settings ← Run.check id (x.settings.value.withFit order window)
  let model ← (modelFor settings.order settings.window).under .fit
  return (settings, model)

omit [Scalar α] [Decomposition α] in
/-- Refuses a setup. That of a configuration or of its fit is noted in the journal before it goes on.
The note shows the order and the window that were given, so that it can be refused itself. -/
def reject {β : Type} (order window : Value) (e : Fault) : Run α Fault β :=
  Run.answer e fun cause =>
    if Value.areShowable [order, window] then do
      Run.note (.setupRejected order window cause)
      throw e
    else throw (.argument .notShowable)

/-- Changes the order and the window and drops the features. -/
def setup (x : Extractor α) (order window : Value) : Run α Fault (Extractor α) := do
  match ← Run.outcome (x.prepare order window) with
  | .error e => reject order window e
  | .ok (settings, model) =>
    let shared ← Run.share settings
    Run.note (.setUp settings.order settings.window)
    return { x with
      settings := shared
      model := model
      mapping := Mapping.ofSettings settings
      features := .empty model.value.dimensions }

/-- Goes back to the default order and window. -/
def clear (x : Extractor α) : Run α Fault (Extractor α) := do
  let x ← x.setup Settings.defaultOrder.value Settings.defaultWindow.value
  Run.note .cleared
  return x

omit [Scalar α] [Decomposition α] in
/-- Takes over everything but the features from another extractor. -/
def copyConfiguration (source : Extractor α) : Extractor α :=
  { source with features := .empty source.model.value.dimensions }

/-! ## Features -/

/-- Extracts the features of an image. -/
def load (x : Extractor α) (image : ArrayLike α) : Run α Fault (Extractor α) := do
  let features ← Run.check id
    (extract x.backend image x.model.value.matrix x.window x.stride)
  let samples ← Run.check .argument image.toSamples
  Run.note (.loaded samples.shape features.rows features.cols x.dimensions)
  return { x with features := features }

/-- Drops the features. -/
def unload (x : Extractor α) : Run α Fault (Extractor α) := do
  Run.note .unloaded
  return { x with features := .empty x.dimensions }

end Extractor

end Facet
