import Mathlib
import Facet.Proofs.Canonical

/-!
# Places of a grid

A pair of whole numbers selects the descriptor at that place if there is one, and is refused as an
index otherwise, unless it is too long to be shown. There is a descriptor at a place exactly if the
block of pixels that belongs to the place lies within the image, whatever the signs of the two
numbers and however small the image.
-/

namespace Facet

/-! ## Places on an axis -/

theorem Value.onAxis_int (n : Int) (length : Nat) :
    (Value.int n).onAxis length = .ok (decide (0 ≤ n ∧ n < length)) := by
  have hbounds : ((decide (0 < n) || n == 0) && decide (n < length)) =
      decide (0 ≤ n ∧ n < length) := by
    rw [Bool.eq_iff_iff]
    simp only [Bool.and_eq_true, Bool.or_eq_true, decide_eq_true_eq, beq_iff_eq]
    omega
  rw [← hbounds]
  simp [Value.onAxis, Value.sortsBefore?, Value.sameKey, Value.dyadic?, Value.integer?, Value.align]

/-- A place is on an axis of windows exactly if the window at it lies within the image. -/
theorem lt_windowCount_iff_int (size : Nat) (w : Window) (d : Stride) (n : Int) :
    (0 ≤ n ∧ n < windowCount size w d) ↔ 0 ≤ n * d.step ∧ n * d.step + w.side ≤ size := by
  have hd := d.one_le
  rcases n with n | n
  · have hcount := lt_windowCount_iff size w d n
    have hcast : Int.ofNat n * d.step = ((n * d.step : Nat) : Int) := by simp
    rw [hcast, Int.ofNat_eq_natCast]
    omega
  · have hneg : Int.negSucc n * d.step < 0 :=
      mul_neg_of_neg_of_pos (Int.negSucc_lt_zero n) (by exact_mod_cast hd)
    have hn := Int.negSucc_lt_zero n
    constructor <;> intro h <;> omega

/-! ## Blocks -/

namespace Rectangle

/-- Whether all points of a rectangle lie in another one. -/
def Inside (r s : Rectangle) : Prop := ∀ p, r.contains p → s.contains p

theorem contains_iff (r : Rectangle) (p : Point) :
    r.contains p ↔ (r.left ≤ p.x ∧ p.x ≤ r.right) ∧ (r.top ≤ p.y ∧ p.y ≤ r.bottom) := by
  simp [contains]

/-- A rectangle that holds its corners lies in another one exactly if its edges do. -/
theorem inside_iff {r s : Rectangle} (hx : r.left ≤ r.right) (hy : r.top ≤ r.bottom) :
    r.Inside s ↔
      (s.left ≤ r.left ∧ r.right ≤ s.right) ∧ (s.top ≤ r.top ∧ r.bottom ≤ s.bottom) := by
  constructor
  · intro h
    have hfirst := h r.topLeft ((r.contains_iff _).2 ⟨⟨le_rfl, hx⟩, le_rfl, hy⟩)
    have hlast := h r.bottomRight ((r.contains_iff _).2 ⟨⟨hx, le_rfl⟩, hy, le_rfl⟩)
    rw [contains_iff] at hfirst hlast
    exact ⟨⟨hfirst.1.1, hlast.1.2⟩, hfirst.2.1, hlast.2.2⟩
  · rintro ⟨⟨hleft, hright⟩, htop, hbottom⟩ p hp
    obtain ⟨⟨hpl, hpr⟩, hpt, hpb⟩ := (r.contains_iff p).1 hp
    exact (s.contains_iff p).2
      ⟨⟨hleft.trans hpl, hpr.trans hright⟩, htop.trans hpt, hpb.trans hbottom⟩

end Rectangle

namespace Mapping

/-- The block of a place begins where its window begins. -/
theorem block_eq (m : Mapping) (row col : Int) :
    m.block row col =
      ⟨col * m.stride.step, row * m.stride.step, col * m.stride.step + m.window.side - 1,
        row * m.stride.step + m.window.side - 1⟩ := by
  have hmargin : ((m.window.side : Int) - 1).fdiv 2 = m.window.margin := by
    rw [Int.fdiv_eq_ediv_of_nonneg _ (by decide)]
    unfold Window.side
    omega
  simp only [block, Rectangle.centeredAt, featureToImage, toImage, margin, hmargin,
    add_sub_cancel_right]

theorem block_width (m : Mapping) (row col : Int) : (m.block row col).width = m.window.side := by
  rw [block_eq, Rectangle.width]
  ring

theorem block_height (m : Mapping) (row col : Int) : (m.block row col).height = m.window.side := by
  rw [block_eq, Rectangle.height]
  ring

/-- The centre of a block is the pixel that its place is mapped to. -/
theorem block_centre (m : Mapping) (row col : Int) :
    let block := m.block row col
    let centre := m.featureToImage ⟨col, row⟩
    (centre.x - block.left = m.window.margin ∧ block.right - centre.x = m.window.margin) ∧
      (centre.y - block.top = m.window.margin ∧ block.bottom - centre.y = m.window.margin) := by
  rw [block_eq]
  simp only [featureToImage, toImage, margin, Window.side]
  push_cast
  refine ⟨⟨?_, ?_⟩, ?_, ?_⟩ <;> ring

/-- A block lies within an image exactly if there is a window at its place on both axes. -/
theorem block_inside_iff (m : Mapping) (row col : Int) (H W : Nat) :
    (m.block row col).Inside ⟨0, 0, W - 1, H - 1⟩ ↔
      (0 ≤ col ∧ col < windowCount W m.window m.stride) ∧
        (0 ≤ row ∧ row < windowCount H m.window m.stride) := by
  have hside := m.window.three_le_side
  rw [lt_windowCount_iff_int, lt_windowCount_iff_int, block_eq, Rectangle.inside_iff] <;>
    dsimp only <;> omega

end Mapping

/-! ## Selecting a place -/

namespace Extractor

variable {α : Type}

theorem rect_contains_iff (x : Extractor α) (row col : Int) :
    x.rect.contains ⟨col, row⟩ ↔
      (0 ≤ col ∧ col < x.features.cols) ∧ (0 ≤ row ∧ row < x.features.rows) := by
  rw [Rectangle.contains_iff]
  simp only [rect]
  omega

/-- A place in the rectangle of the features selects its descriptor. -/
theorem select_of_contains {x : Extractor α} {row col : Int} {r : Fin x.features.rows}
    {c : Fin x.features.cols} (hr : (r : Int) = row) (hc : (c : Int) = col) :
    x.select (.list [.int row, .int col]) = .ok (.descriptor (x.features.values.entry r c)) := by
  have hrow : 0 ≤ row ∧ row < x.features.rows := by omega
  have hcol : 0 ≤ col ∧ col < x.features.cols := by omega
  have hplace : x.features.list? row.toNat col.toNat = some (x.features.values.entry r c) := by
    subst hr hc
    simp [Grid.list?]
  have honGrid : Value.onGrid (.int row) (.int col) x.features.rows x.features.cols = .ok true := by
    simp [Value.onGrid, Value.onAxis_int, hrow, hcol]
  simp only [select, Value.pair, Value.items?, ok_bind, honGrid, descriptorAt, hplace,
    if_pos (And.intro hrow.1 hcol.1)]
  rfl

/-- A place outside of the rectangle of the features is refused. -/
theorem select_of_not_contains {x : Extractor α} {row col : Int}
    (h : ¬ x.rect.contains ⟨col, row⟩) :
    x.select (.list [.int row, .int col]) = .error (x.outside (.int row) (.int col)) := by
  rw [rect_contains_iff] at h
  have honGrid : Value.onGrid (.int row) (.int col) x.features.rows x.features.cols =
      .ok false := by
    simp only [Value.onGrid, Value.onAxis_int, ok_bind]
    split
    · rename_i hrow
      rw [decide_eq_true_eq] at hrow
      rw [decide_eq_false fun hcol => h ⟨hcol, hrow⟩]
    · rfl
  simp only [select, Value.pair, Value.items?, ok_bind, honGrid]
  rfl

/-- What is refused as an index is a place that can be shown. -/
theorem outside_kind (x : Extractor α) (row col : Int) :
    ((Text.isShowable row ∧ Text.isShowable col) →
      (x.outside (.int row) (.int col)).kind = .index) ∧
    (¬(Text.isShowable row ∧ Text.isShowable col) →
      (x.outside (.int row) (.int col)).kind = .value) := by
  have hshown : Value.areShowable [.int row, .int col] = true ↔
      (Text.isShowable row ∧ Text.isShowable col) := by
    simp [Value.areShowable_iff, Value.isShowable]
  refine ⟨fun h => ?_, fun h => ?_⟩
  · rw [outside, ArgumentFault.showing_of_showable (hshown.2 h)]
    rfl
  · rw [outside, ArgumentFault.showing_of_not_showable (mt hshown.1 h)]
    rfl

end Extractor

end Facet
