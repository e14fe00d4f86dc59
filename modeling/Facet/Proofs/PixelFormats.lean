import Mathlib
import Facet.Proofs.Records

/-!
# Which images are loaded

An array can be loaded if its elements are numbers and its axes are those of a picture: rows and
columns, and behind them perhaps an axis of one or of three channels. Nothing else decides: neither
the values of the pixels, nor whether there are any, nor whether the picture is as large as a window.
What is not a picture is refused for its pixels, and that comes before its size is looked at.
-/

namespace Facet

/-! ## Pictures -/

/-- Whether a type is one of truth values, of integers or of floating-point numbers. Lengths of time
are a kind of integers. -/
def ElementType.IsNumeric (type : ElementType) : Prop :=
  type = .bool ∨ (∃ signed bits, type = .integer signed bits) ∨ (∃ bits, type = .real bits) ∨
    ∃ unit, type = .span unit

theorem ElementType.isReal_iff (type : ElementType) : type.isReal = true ↔ type.IsNumeric := by
  unfold IsNumeric
  cases type <;> simp [isReal]

variable {α : Type}

/-- Whether an array has the axes of a picture with so many rows and columns. -/
def Samples.IsPicture (s : Samples α) (rows cols : Nat) : Prop :=
  s.shape = [rows, cols] ∨ s.shape = [rows, cols, 1] ∨ s.shape = [rows, cols, 3]

namespace Samples

variable [Scalar α]

/-- A picture of numbers has intensities. -/
theorem exists_intensity {s : Samples α} {rows cols : Nat} (htype : s.element.IsNumeric)
    (haxes : s.IsPicture rows cols) :
    ∃ raster, s.intensity = .ok raster ∧ raster.rows = rows ∧ raster.cols = cols := by
  rcases s with ⟨element, ⟨shape, entries⟩⟩
  have hreal : ¬(!element.isReal) = true := by
    rw [(ElementType.isReal_iff element).2 htype]
    exact Bool.false_ne_true
  rcases haxes with hshape | hshape | hshape
  all_goals
    obtain rfl : shape = _ := hshape
    rw [intensity, if_neg hreal]
    exact ⟨_, rfl, rfl, rfl⟩

/-- Everything else has none. -/
theorem exists_fault {s : Samples α}
    (h : ¬s.element.IsNumeric ∨ ¬∃ rows cols, s.IsPicture rows cols) :
    ∃ e, s.intensity = .error e := by
  rcases s with ⟨element, ⟨shape, entries⟩⟩
  unfold intensity
  by_cases hreal : element.isReal = true
  · have haxes : ¬∃ rows cols, IsPicture ⟨element, ⟨shape, entries⟩⟩ rows cols :=
      h.resolve_left fun hnot => hnot ((ElementType.isReal_iff element).1 hreal)
    rw [if_neg (by rw [hreal]; exact Bool.false_ne_true)]
    -- the cases are those of the number of axes and then of the number of channels
    rcases shape with _ | ⟨m, _ | ⟨n, _ | ⟨channels, _ | ⟨more, rest⟩⟩⟩⟩
    · exact ⟨_, rfl⟩
    · exact ⟨_, rfl⟩
    · exact absurd ⟨m, n, .inl rfl⟩ haxes
    · by_cases hone : channels = 1
      · subst hone
        exact absurd ⟨m, n, .inr (.inl rfl)⟩ haxes
      by_cases hthree : channels = 3
      · subst hthree
        exact absurd ⟨m, n, .inr (.inr rfl)⟩ haxes
      by_cases halpha : carriesAlpha channels = true
      · exact ⟨_, if_pos halpha⟩
      · refine ⟨.channelCount channels, (if_neg halpha).trans ?_⟩
        split
        · exact absurd rfl hone
        · exact absurd rfl hthree
        · rfl
    · exact ⟨_, rfl⟩
  · rw [if_pos (by simpa using hreal)]
    exact ⟨_, rfl⟩

end Samples

/-! ## Loads -/

variable [Scalar α] [Decomposition α]

namespace Extractor

variable {x : Extractor α} {old : Option (ArrayLike α)} {image : Samples α}

theorem Coherent.extract_eq (h : x.Coherent old) (image : Samples α) :
    extract x.backend (.array image) x.model.value.matrix x.window x.stride =
      (image.intensity.mapError .pixels).map fun raster =>
        windowDescriptors raster x.model.value.window x.stride x.model.value.operator := by
  rw [← h.window, FitModel.extract_eq]
  rfl

/-- Without intensities an image is refused for its pixels. -/
theorem Coherent.load_of_error (h : x.Coherent old) {e : PixelFault}
    (he : image.intensity = .error e) (s : Session α) :
    ((x.load (.array image)).run s).1 = .error (.pixels e) := by
  rw [load, h.extract_eq, he]
  rfl

/-- With them it is loaded, and only the features are changed. -/
theorem Coherent.load_of_ok (h : x.Coherent old) {raster : Raster α}
    (hraster : image.intensity = .ok raster) (s : Session α) :
    ((x.load (.array image)).run s).1 = .ok { x with
      features := windowDescriptors raster x.model.value.window x.stride
        x.model.value.operator } := by
  rw [load, h.extract_eq, hraster]
  rfl

end Extractor

namespace Store

variable {s : Store α} {name : String} {x : Extractor α} {old : Option (ArrayLike α)}
  {image : Samples α}

theorem step_load (hx : s.extractor? name = some x) :
    s.step (.load name (.array image)) = s.keep name (x.load (.array image)) := by
  rw [step, update, hx]

theorem step_load_of_error (hx : s.extractor? name = some x) (h : x.Coherent old)
    {e : PixelFault} (he : image.intensity = .error e) :
    (s.step (.load name (.array image))).1 = .error (.pixels e) := by
  rw [step_load hx]
  exact keep_of_error name (h.load_of_error he s.session)

theorem step_load_of_ok (hx : s.extractor? name = some x) (h : x.Coherent old)
    {raster : Raster α} (hraster : image.intensity = .ok raster) :
    (s.step (.load name (.array image))).1 = .ok () ∧
      (s.step (.load name (.array image))).2.extractor? name = some { x with
        features := windowDescriptors raster x.model.value.window x.stride
          x.model.value.operator } := by
  rw [step_load hx]
  obtain ⟨hok, -, -, hname, -⟩ := keep_of_ok name (h.load_of_ok hraster s.session)
  exact ⟨hok, hname⟩

/-- **What can be loaded.** After any run, let an array of any element type, with any number of axes
of any lengths, be loaded by the extractor of a name. It is refused as an unsupported format exactly
if its elements are no numbers or its axes are not those of a picture. In every other case it is not
refused at all, whatever its pixels are, and the extractor is the same as before but for its
features: the grid has the rows and columns that are counted for the size of the picture, the window
and the stride, and at each place a number for each dimension. -/
theorem load_array (commands : List (Command α)) (hx : (empty.run commands).extractor? name = some x)
    (image : Samples α) :
    let result := (empty.run commands).step (.load name (.array image))
    ((∃ e, result.1 = .error e ∧ e.kind = .unsupportedPixelFormat) ↔
      ¬image.element.IsNumeric ∨ ¬∃ rows cols, image.IsPicture rows cols) ∧
    ∀ rows cols : Nat, image.element.IsNumeric → image.IsPicture rows cols →
      result.1 = .ok () ∧ ∃ (features : Grid α) (nr nc : Nat),
        result.2.extractor? name = some { x with features } ∧
        gridShape [.int rows, .int cols] x.window.value x.stride.value = .ok (.int nr, .int nc) ∧
        features.shape = [nr, nc, x.dimensions] := by
  intro result
  have hcoherent := (run_consistent commands).coherent name x hx
  have haccepted (rows cols : Nat) (htype : image.element.IsNumeric)
      (haxes : image.IsPicture rows cols) :
      result.1 = .ok () ∧ ∃ (features : Grid α) (nr nc : Nat),
        result.2.extractor? name = some { x with features } ∧
        gridShape [.int rows, .int cols] x.window.value x.stride.value = .ok (.int nr, .int nc) ∧
        features.shape = [nr, nc, x.dimensions] := by
    obtain ⟨raster, hraster, rfl, rfl⟩ := Samples.exists_intensity htype haxes
    obtain ⟨hok, hname⟩ := step_load_of_ok hx hcoherent hraster
    refine ⟨hok, _, _, _, hname, gridShape_value raster.rows raster.cols x.window x.stride, ?_⟩
    rw [← hcoherent.window]
    rfl
  refine ⟨⟨?_, ?_⟩, haccepted⟩
  · rintro ⟨e, he, -⟩
    by_contra hloads
    push Not at hloads
    obtain ⟨htype, rows, cols, haxes⟩ := hloads
    rw [(haccepted rows cols htype haxes).1] at he
    cases he
  · intro h
    obtain ⟨e, he⟩ := Samples.exists_fault h
    exact ⟨.pixels e, step_load_of_error hx hcoherent he, rfl⟩

/-- Windows of three pixels, two apart, over a colour picture of five by four pixels with 16 bits in
each channel. An empty picture of the same type with transparency is refused, and so is one that
consists of dates. -/
theorem load_array_five_by_four :
    letI := Decomposition.byColumns
    let commands : List (Command (Exact ℚ)) :=
      [.construct "a" (some (.int 1)) (some (.int 3)) (some (.int 2)) none]
    let colour : Samples (Exact ℚ) := ⟨.integer false 16, .fill [5, 4, 3] (.whole 7)⟩
    let transparent : Samples (Exact ℚ) := ⟨.integer false 16, .fill [0, 4, 4] (.whole 7)⟩
    let dates : Samples (Exact ℚ) := ⟨.instant "D", .fill [5, 4] (.whole 7)⟩
    let step (image : Samples (Exact ℚ)) := (empty.run commands).step (.load "a" (.array image))
    ∃ x, (empty.run commands).extractor? "a" = some x ∧
      (colour.element.IsNumeric ∧ colour.IsPicture 5 4) ∧
      (∃ features, (step colour).2.extractor? "a" = some { x with features } ∧
        features.shape = [2, 1, 2]) ∧
      (∃ e, (step transparent).1 = .error e ∧ e.kind = .unsupportedPixelFormat) ∧
      ∃ e, (step dates).1 = .error e ∧ e.kind = .unsupportedPixelFormat := by
  intro commands colour transparent dates step
  let := Decomposition.byColumns
  have hmade : ((empty.run commands).extractor? "a").map (fun x =>
      (x.window, x.stride, x.dimensions)) = some (⟨1, by decide⟩, ⟨2, by decide⟩, 2) := by
    decide +kernel
  obtain ⟨x, hx, hconfiguration⟩ := Option.map_eq_some_iff.1 hmade
  obtain ⟨hwindow, hstride, hdimensions⟩ :
      x.window = ⟨1, by decide⟩ ∧ x.stride = ⟨2, by decide⟩ ∧ x.dimensions = 2 := by
    simpa using hconfiguration
  have htype : colour.element.IsNumeric := .inr (.inl ⟨false, 16, rfl⟩)
  have haxes : colour.IsPicture 5 4 := .inr (.inr rfl)
  obtain ⟨-, features, nr, nc, hname, hgrid, hshape⟩ :=
    (load_array commands hx colour).2 5 4 htype haxes
  have hcount : gridShape [.int (5 : Nat), .int (4 : Nat)] x.window.value x.stride.value =
      .ok (.int 2, .int 1) := by
    rw [hwindow, hstride]
    rfl
  rw [hcount] at hgrid
  simp only [Except.ok.injEq, Prod.mk.injEq, Value.int.injEq] at hgrid
  obtain ⟨rfl, rfl⟩ : nr = 2 ∧ nc = 1 := by omega
  refine ⟨x, hx, ⟨htype, haxes⟩, ⟨features, hname, ?_⟩, ?_, ?_⟩
  · rw [hshape, hdimensions]
  · refine (load_array commands hx transparent).1.2 (.inr ?_)
    rintro ⟨rows, cols, h | h | h⟩ <;> cases h
  · refine (load_array commands hx dates).1.2 (.inl ?_)
    rintro (h | ⟨_, _, h⟩ | ⟨_, h⟩ | ⟨_, h⟩) <;> cases h

end Store

end Facet
