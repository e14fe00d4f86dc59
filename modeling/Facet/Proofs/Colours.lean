import Mathlib
import Facet.Proofs.PixelFormats

/-!
# Gray pictures as coloured ones

The weights of the three channels add up to one, so the gray level of a colour lies between its
least and its greatest channel, and a colour of three equal channels has that channel for its level.
Hence a picture of whole numbers of up to 16 bits has the same features whether it comes with two
axes, with a third axis of length one, or with every pixel three times along a third axis. The sum of
the weighed channels stays below `2 ^ 31`, also for the greatest channels of all.
-/

namespace Facet

/-! ## Gray levels -/

/-- The element types whose colours are weighed as integers, with the greatest number of each. -/
inductive ElementType.HoldsUpTo : ElementType → Int → Prop
  /-- Truth values. -/
  | bool : HoldsUpTo .bool 1
  /-- Bytes. -/
  | byte : HoldsUpTo (.integer false 8) 255
  /-- Pairs of bytes. -/
  | word : HoldsUpTo (.integer false 16) 65535

theorem ElementType.HoldsUpTo.limit_le {type : ElementType} {limit : Int}
    (h : type.HoldsUpTo limit) : limit ≤ 65535 := by
  cases h <;> decide

section Levels

variable {blue green red low high : Int}

theorem grayOfWhole_eq (blue green red : Int) :
    grayOfWhole blue green red = (3735 * blue + 19235 * green + 9798 * red + 2 ^ 14) / 2 ^ 15 :=
  Int.fdiv_eq_ediv_of_nonneg _ (by norm_num)

/-- Weights that add up to one do not lead out of an interval. -/
theorem grayOfWhole_mem (hblue : low ≤ blue ∧ blue ≤ high) (hgreen : low ≤ green ∧ green ≤ high)
    (hred : low ≤ red ∧ red ≤ high) :
    low ≤ grayOfWhole blue green red ∧ grayOfWhole blue green red ≤ high := by
  rw [grayOfWhole_eq]
  omega

theorem grayOfWhole_self (level : Int) : grayOfWhole level level level = level := by
  have hself : level ≤ level ∧ level ≤ level := ⟨le_rfl, le_rfl⟩
  obtain ⟨hlow, hhigh⟩ := grayOfWhole_mem hself hself hself
  exact le_antisymm hhigh hlow

end Levels

/-! ## Pictures of three layouts -/

variable {α : Type}

/-- Whether an element is a whole number from zero up to a limit. -/
def Sample.IsUpTo (limit : Int) (p : Sample α) : Prop := ∃ n, p = .whole n ∧ 0 ≤ n ∧ n ≤ limit

namespace Samples

variable {rows cols : Nat} {type : ElementType}

/-- A picture with rows and columns only. -/
def flat (type : ElementType) (entries : Vector (Sample α) (extent [rows, cols])) : Samples α :=
  ⟨type, ⟨[rows, cols], entries⟩⟩

/-- The same elements with a third axis of length one. -/
def withAxis (type : ElementType) (entries : Vector (Sample α) (extent [rows, cols])) :
    Samples α :=
  ⟨type, ⟨[rows, cols, 1], entries.cast (by simp [extent])⟩⟩

theorem extent_threefold (rows cols : Nat) : extent [rows, cols] * 3 = extent [rows, cols, 3] := by
  simp [extent, mul_assoc]

/-- Each element three times along a third axis. -/
def threefold (type : ElementType) (entries : Vector (Sample α) (extent [rows, cols])) :
    Samples α :=
  ⟨type, ⟨[rows, cols, 3], (entries.map fun p => Vector.replicate 3 p).flatten.cast
    (extent_threefold rows cols)⟩⟩

theorem entry₃_withAxis (entries : Vector (Sample α) (extent [rows, cols])) (r : Fin rows)
    (c : Fin cols) : Tensor.entry₃ (withAxis type entries).array.entries r c 0 =
      Tensor.entry₂ entries r c := by
  simp [withAxis, Tensor.entry₃, Tensor.entry₂]

theorem entry₃_threefold (entries : Vector (Sample α) (extent [rows, cols])) (r : Fin rows)
    (c : Fin cols) (i : Fin 3) : Tensor.entry₃ (threefold type entries).array.entries r c i =
      Tensor.entry₂ entries r c := by
  have hplace : ((r.val * cols + c.val) * 3 + i.val) / 3 = r.val * cols + c.val := by omega
  simp [threefold, Tensor.entry₃, Tensor.entry₂, Vector.getElem_flatten, hplace]

variable [Scalar α] {limit : Int}

theorem intensity_flat (h : type.HoldsUpTo limit)
    (entries : Vector (Sample α) (extent [rows, cols])) :
    (flat type entries).intensity =
      .ok ⟨rows, cols, Table.ofFn fun r c => (Tensor.entry₂ entries r c).toReal⟩ := by
  cases h <;> rfl

theorem intensity_withAxis (h : type.HoldsUpTo limit)
    (entries : Vector (Sample α) (extent [rows, cols])) :
    (withAxis type entries).intensity = (flat type entries).intensity := by
  have hpixels : (withAxis type entries).intensity = .ok ⟨rows, cols, Table.ofFn fun r c =>
      (Tensor.entry₃ (withAxis type entries).array.entries r c 0).toReal⟩ := by
    cases h <;> rfl
  rw [hpixels, intensity_flat h]
  simp only [entry₃_withAxis]

/-- A colour picture is weighed pixel by pixel. -/
theorem intensity_colour (h : type.HoldsUpTo limit)
    (entries : Vector (Sample α) (extent [rows, cols, 3])) :
    (⟨type, ⟨[rows, cols, 3], entries⟩⟩ : Samples α).intensity =
      .ok ⟨rows, cols, Table.ofFn fun r c => Scalar.ofInt (grayOfWhole
        (Tensor.entry₃ entries r c 0).toWhole (Tensor.entry₃ entries r c 1).toWhole
        (Tensor.entry₃ entries r c 2).toWhole)⟩ := by
  cases h <;> rfl

theorem intensity_threefold (h : type.HoldsUpTo limit)
    {entries : Vector (Sample α) (extent [rows, cols])} (hentries : ∀ p ∈ entries, p.IsUpTo limit) :
    (threefold type entries).intensity = (flat type entries).intensity := by
  rw [intensity_flat h]
  refine (intensity_colour h (threefold type entries).array.entries).trans ?_
  simp only [entry₃_threefold, grayOfWhole_self]
  refine congrArg (fun pixels => Except.ok (Raster.mk rows cols pixels))
    (Table.ext_entry fun r c => ?_)
  rw [Table.entry_ofFn, Table.entry_ofFn]
  obtain ⟨n, hn, -⟩ := hentries (Tensor.entry₂ entries r c) (Vector.getElem_mem _)
  rw [hn]
  rfl

end Samples

/-! ## Loads -/

variable [Scalar α] [Decomposition α]

/-- **Colour and gray agree.** Take a picture of any size whose elements are truth values or whole
numbers of 8 or 16 bits. If it is coloured, then at every pixel the sum of the weighed channels stays
below `2 ^ 31`, and the intensity is the quotient of this sum, which lies between the least and the
greatest channel. If it is gray, then after any run an extractor is left in the same state by the
picture as it is, by the picture with a third axis of length one, and by three copies of it side by
side as channels; none of the three is refused. -/
theorem Store.load_layouts_agree {type : ElementType} {limit : Int} (h : type.HoldsUpTo limit)
    (rows cols : Nat) :
    (∀ entries : Vector (Sample α) (extent [rows, cols, 3]), (∀ p ∈ entries, p.IsUpTo limit) →
      ∃ pixels : Table α rows cols,
        (⟨type, ⟨[rows, cols, 3], entries⟩⟩ : Samples α).intensity = .ok ⟨rows, cols, pixels⟩ ∧
        ∀ r c,
          let channel (i : Fin 3) := (Tensor.entry₃ entries r c i).toWhole
          let total := 3735 * channel 0 + 19235 * channel 1 + 9798 * channel 2 + 2 ^ 14
          let level := total / 2 ^ 15
          (0 ≤ total ∧ total < 2 ^ 31) ∧ pixels.entry r c = Scalar.ofInt level ∧
            min (channel 0) (min (channel 1) (channel 2)) ≤ level ∧
            level ≤ max (channel 0) (max (channel 1) (channel 2))) ∧
    ∀ (commands : List (Command α)) (name : String) (x : Extractor α),
      (empty.run commands).extractor? name = some x →
      ∀ entries : Vector (Sample α) (extent [rows, cols]), (∀ p ∈ entries, p.IsUpTo limit) →
        ∃ features, ∀ image ∈ [Samples.flat type entries, Samples.withAxis type entries,
            Samples.threefold type entries],
          let result := (empty.run commands).step (.load name (.array image))
          result.1 = .ok () ∧ result.2.extractor? name = some { x with features } := by
  refine ⟨fun entries hentries => ⟨_, Samples.intensity_colour h entries, fun r c => ?_⟩,
    fun commands name x hx entries hentries => ?_⟩
  · intro channel total level
    have hchannel (i : Fin 3) : 0 ≤ channel i ∧ channel i ≤ 65535 := by
      obtain ⟨n, hn, hzero, hlimit⟩ :=
        hentries (Tensor.entry₃ entries r c i) (Vector.getElem_mem _)
      have hwhole : channel i = n := by
        show (Tensor.entry₃ entries r c i).toWhole = n
        rw [hn]
        rfl
      rw [hwhole]
      exact ⟨hzero, hlimit.trans h.limit_le⟩
    have hlevel : grayOfWhole (channel 0) (channel 1) (channel 2) = level := grayOfWhole_eq _ _ _
    have hbetween : min (channel 0) (min (channel 1) (channel 2)) ≤ level ∧
        level ≤ max (channel 0) (max (channel 1) (channel 2)) := by
      rw [← hlevel]
      exact grayOfWhole_mem (by omega) (by omega) (by omega)
    have hblue := hchannel 0
    have hgreen := hchannel 1
    have hred := hchannel 2
    refine ⟨by omega, ?_, hbetween⟩
    rw [Table.entry_ofFn]
    exact congrArg Scalar.ofInt hlevel
  · have hcoherent := (run_consistent commands).coherent name x hx
    have hflat := Samples.intensity_flat h entries
    have hsame : ∀ image ∈ [Samples.flat type entries, Samples.withAxis type entries,
        Samples.threefold type entries],
        image.intensity = (Samples.flat type entries).intensity := by
      intro image himage
      simp only [List.mem_cons, List.not_mem_nil, or_false] at himage
      rcases himage with rfl | rfl | rfl
      · rfl
      · exact Samples.intensity_withAxis h entries
      · exact Samples.intensity_threefold h hentries
    have hload (image : Samples α) (himage : image ∈ _) :=
      step_load_of_ok hx hcoherent ((hsame image himage).trans hflat)
    exact ⟨_, hload⟩

/-- Two pixels of 16 bits, the first as bright as can be, and a gray picture of three by four bytes
that an extractor loads in all three layouts. -/
theorem Store.load_layouts_agree_three_by_four :
    letI := Decomposition.byColumns
    let bright : Vector (Sample (Exact ℚ)) (extent [1, 2, 3]) :=
      Vector.ofFn fun p => .whole (if p.val < 3 then 65535 else p.val)
    let commands : List (Command (Exact ℚ)) :=
      [.construct "a" (some (.int 1)) (some (.int 3)) none none]
    let gray : Vector (Sample (Exact ℚ)) (extent [3, 4]) := Vector.ofFn fun p => .whole (p.val + 1)
    (∀ p ∈ bright, p.IsUpTo 65535) ∧
    (∃ pixels : Table (Exact ℚ) 1 2,
      (⟨.integer false 16, ⟨[1, 2, 3], bright⟩⟩ : Samples (Exact ℚ)).intensity =
        .ok ⟨1, 2, pixels⟩ ∧ pixels.entry 0 0 = .number 65535) ∧
    (∀ p ∈ gray, p.IsUpTo 255) ∧
    ∃ x, (empty.run commands).extractor? "a" = some x ∧
      ∃ features, ∀ image ∈ [Samples.flat (.integer false 8) gray,
          Samples.withAxis (.integer false 8) gray, Samples.threefold (.integer false 8) gray],
        ((empty.run commands).step (.load "a" (.array image))).2.extractor? "a" =
          some { x with features } := by
  intro bright commands gray
  let := Decomposition.byColumns
  have hbright : ∀ p ∈ bright, p.IsUpTo 65535 := by
    intro p hp
    obtain ⟨i, rfl⟩ := Vector.mem_ofFn.1 hp
    have hi : i.val < 6 := i.isLt
    refine ⟨_, rfl, ?_, ?_⟩ <;> split <;> omega
  have hgray : ∀ p ∈ gray, p.IsUpTo 255 := by
    intro p hp
    obtain ⟨i, rfl⟩ := Vector.mem_ofFn.1 hp
    have hi : i.val < 12 := i.isLt
    exact ⟨i.val + 1, rfl, by omega, by omega⟩
  have hmade : ((empty.run commands).extractor? "a").isSome = true := by
    decide +kernel
  obtain ⟨x, hx⟩ := Option.isSome_iff_exists.1 hmade
  obtain ⟨pixels, hintensity, hlevels⟩ :=
    (load_layouts_agree (α := Exact ℚ) ElementType.HoldsUpTo.word 1 2).1 bright hbright
  obtain ⟨features, hfeatures⟩ :=
    (load_layouts_agree ElementType.HoldsUpTo.byte 3 4).2 commands "a" x hx gray hgray
  refine ⟨hbright, ⟨pixels, hintensity, ?_⟩, hgray, x, hx, features, fun image himage =>
    (hfeatures image himage).2⟩
  exact (hlevels 0 0).2.1

end Facet
