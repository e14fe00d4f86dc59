import Mathlib
import Facet.Proofs.PointMapping

/-!
# Rectangles as sets of points

A rectangle stands for the integer points between its edges, edges included. It is empty if there are
none, its area is their number, and what two rectangles have in common is what both of them hold.
This is so for all rectangles, also for those whose corners are in the wrong order on one axis or on
both: they hold no point, so their area is zero, although the product of two negative extents is
positive.
-/

namespace Facet.Rectangle

/-- The points of a rectangle. -/
def points (r : Rectangle) : Set Point := {p | r.contains p}

theorem mem_points {r : Rectangle} {p : Point} :
    p ∈ r.points ↔ (r.left ≤ p.x ∧ p.x ≤ r.right) ∧ (r.top ≤ p.y ∧ p.y ≤ r.bottom) :=
  r.contains_iff p

/-! ## Emptiness -/

/-- A rectangle that is not empty holds its first corner. -/
theorem isEmpty_iff (r : Rectangle) : r.isEmpty = true ↔ r.points = ∅ := by
  constructor
  · intro hempty
    refine Set.eq_empty_of_forall_notMem fun p hp => ?_
    have hp := mem_points.1 hp
    have hedges : r.isEmpty = false := r.isEmpty_eq_false_iff.2 (by omega)
    rw [hempty] at hedges
    cases hedges
  · intro hnone
    by_contra hempty
    obtain ⟨hacross, hdown⟩ := r.isEmpty_eq_false_iff.1 (Bool.eq_false_iff.2 hempty)
    have hcorner : r.topLeft ∈ r.points := mem_points.2 ⟨⟨le_rfl, hacross⟩, le_rfl, hdown⟩
    rw [hnone] at hcorner
    exact hcorner

/-! ## Area -/

/-- The points are the pairs of a column and a row. -/
theorem points_eq_image (r : Rectangle) :
    r.points = (fun q : Int × Int => (⟨q.1, q.2⟩ : Point)) ''
      (Finset.Icc r.left r.right ×ˢ Finset.Icc r.top r.bottom : Finset (Int × Int)) := by
  ext p
  rw [mem_points]
  constructor
  · intro hp
    refine ⟨(p.x, p.y), ?_, rfl⟩
    rw [Finset.mem_coe, Finset.mem_product, Finset.mem_Icc, Finset.mem_Icc]
    exact hp
  · rintro ⟨q, hq, rfl⟩
    rw [Finset.mem_coe, Finset.mem_product, Finset.mem_Icc, Finset.mem_Icc] at hq
    exact hq

theorem points_finite (r : Rectangle) : r.points.Finite := by
  rw [points_eq_image]
  exact (Finset.finite_toSet _).image _

/-- There are as many points as columns times rows, where there are both. -/
theorem ncard_points (r : Rectangle) : r.points.ncard = r.width.toNat * r.height.toNat := by
  have hinjective : Function.Injective fun q : Int × Int => (⟨q.1, q.2⟩ : Point) := by
    intro q q' h
    exact Prod.ext (congrArg Point.x h) (congrArg Point.y h)
  rw [points_eq_image, Set.ncard_image_of_injective _ hinjective, Set.ncard_coe_finset,
    Finset.card_product, Int.card_Icc, Int.card_Icc, width, height]
  congr 2 <;> omega

theorem area_eq_ncard (r : Rectangle) : r.area = r.points.ncard := by
  by_cases hempty : r.isEmpty = true
  · rw [area, if_pos hempty, r.isEmpty_iff.1 hempty, Set.ncard_empty, Nat.cast_zero]
  · obtain ⟨hacross, hdown⟩ := r.isEmpty_eq_false_iff.1 (Bool.eq_false_iff.2 hempty)
    have hwidth : 0 ≤ r.width := by rw [width]; omega
    have hheight : 0 ≤ r.height := by rw [height]; omega
    rw [area, if_neg hempty, ncard_points, Nat.cast_mul, Int.toNat_of_nonneg hwidth,
      Int.toNat_of_nonneg hheight]

/-! ## Points in common -/

theorem points_intersect (r s : Rectangle) : (r.intersect s).points = r.points ∩ s.points := by
  ext p
  rw [Set.mem_inter_iff, mem_points, mem_points, mem_points]
  simp only [intersect]
  omega

theorem intersect_comm (r s : Rectangle) : r.intersect s = s.intersect r := by
  simp only [intersect, max_comm, min_comm]

theorem intersect_assoc (r s t : Rectangle) :
    (r.intersect s).intersect t = r.intersect (s.intersect t) := by
  simp only [intersect, max_assoc, min_assoc]

theorem intersect_self (r : Rectangle) : r.intersect r = r := by
  simp only [intersect, max_self, min_self]

theorem area_intersect_le (r s : Rectangle) : (r.intersect s).area ≤ r.area := by
  have hpart : (r.intersect s).points ⊆ r.points := by
    rw [points_intersect]
    exact Set.inter_subset_left
  rw [area_eq_ncard, area_eq_ncard]
  exact_mod_cast Set.ncard_le_ncard hpart r.points_finite

/-! ## Rectangles around a centre -/

section Centre

variable (c : Point) (width height : Int)

/-- Of the other columns and rows half lie before the centre, rounded down. -/
theorem centeredAt_eq :
    centeredAt c width height =
      ⟨c.x - (width - 1) / 2, c.y - (height - 1) / 2, c.x - (width - 1) / 2 + width - 1,
        c.y - (height - 1) / 2 + height - 1⟩ := by
  have htwo : (0 : Int) ≤ 2 := by decide
  rw [centeredAt, Int.fdiv_eq_ediv_of_nonneg _ htwo, Int.fdiv_eq_ediv_of_nonneg _ htwo]

theorem width_centeredAt : (centeredAt c width height).width = width := by
  rw [centeredAt_eq, Rectangle.width]
  ring

theorem height_centeredAt : (centeredAt c width height).height = height := by
  rw [centeredAt_eq, Rectangle.height]
  ring

/-- Behind the centre there are as many columns and rows as before it, and of an even number one
more. -/
theorem centeredAt_sides :
    let r := centeredAt c width height
    r.right - c.x = c.x - r.left + (if width % 2 = 0 then 1 else 0) ∧
      r.bottom - c.y = c.y - r.top + (if height % 2 = 0 then 1 else 0) := by
  rw [centeredAt_eq]
  constructor
  · dsimp only
    split <;> omega
  · dsimp only
    split <;> omega

theorem mem_points_centeredAt :
    c ∈ (centeredAt c width height).points ↔ 0 < width ∧ 0 < height := by
  rw [mem_points, centeredAt_eq]
  dsimp only
  omega

end Centre

/-- **Rectangles are sets of points.** What two rectangles have in common holds a point exactly if
both hold it; a rectangle is empty exactly if it holds no point, and its area is the number of the
points that it holds. Taking what is in common is commutative, associative and idempotent, on the
corners themselves, and never adds to an area. A rectangle of any size around a centre, also of none
or of a negative one, has that size; it holds the centre exactly if it has a point at all, and the
centre is the middle one of an odd number of columns or rows, and the first of the two middle ones of
an even number. -/
theorem points_of_rectangles :
    (∀ (r s : Rectangle) (p : Point),
      (r.intersect s).contains p ↔ r.contains p ∧ s.contains p) ∧
    (∀ r : Rectangle, r.isEmpty ↔ ∀ p, ¬r.contains p) ∧
    (∀ r : Rectangle, {p | r.contains p}.Finite ∧ r.area = {p | r.contains p}.ncard) ∧
    ((∀ r s : Rectangle, r.intersect s = s.intersect r) ∧
      (∀ r s t : Rectangle, (r.intersect s).intersect t = r.intersect (s.intersect t)) ∧
      ∀ r : Rectangle, r.intersect r = r) ∧
    (∀ r s : Rectangle, (r.intersect s).area ≤ min r.area s.area) ∧
    ∀ (c : Point) (width height : Int),
      let r := centeredAt c width height
      (r.width = width ∧ r.height = height) ∧ (r.contains c ↔ 0 < width ∧ 0 < height) ∧
        r.right - c.x = c.x - r.left + (if width % 2 = 0 then 1 else 0) ∧
        r.bottom - c.y = c.y - r.top + (if height % 2 = 0 then 1 else 0) := by
  refine ⟨fun r s p => ?_, fun r => ?_, fun r => ⟨r.points_finite, r.area_eq_ncard⟩,
    ⟨intersect_comm, intersect_assoc, intersect_self⟩, fun r s => ?_, fun c width height => ?_⟩
  · exact Set.ext_iff.1 (points_intersect r s) p
  · rw [isEmpty_iff, Set.eq_empty_iff_forall_notMem]
    exact Iff.rfl
  · refine le_min (area_intersect_le r s) ?_
    rw [intersect_comm]
    exact area_intersect_le s r
  · exact ⟨⟨width_centeredAt c width height, height_centeredAt c width height⟩,
      mem_points_centeredAt c width height, centeredAt_sides c width height⟩

end Facet.Rectangle
