import Mathlib
import Facet.Proofs.Monomials
import Facet.Proofs.Settings
import Facet.Proofs.WindowSums

/-!
# Where things stand in the design matrix

The rows of the design matrix belong to the pixels of the window, row by row, and its columns to the
monomials, degree by degree. So the row of an offset and the column of a monomial can be computed,
and every offset and every monomial has one. Multiplying the matrix with coefficients and cutting the
result into rows as long as the window lays out the values of the polynomial as the pixels of an
image: the column index goes with the first variable, and the row index with the second.
-/

namespace Facet

/-! ## The columns -/

namespace Monomial

theorem upTo_succ (k : Nat) : upTo (k + 1) = upTo k ++ ofDegree (k + 1) := by
  rw [upTo, List.range_succ, List.flatMap_append, List.flatMap_singleton]
  rfl

/-- As many monomials as have a lower degree stand before those of a degree, which are counted by the
power of the row offset. -/
def place (e : Monomial) : Nat := (e.x + e.y) * (e.x + e.y + 1) / 2 + e.y

theorem getElem?_place {k : Nat} {e : Monomial} (h : e.x + e.y ≤ k) :
    (upTo k)[e.place]? = some e := by
  induction k with
  | zero =>
    obtain ⟨a, b⟩ := e
    obtain ⟨rfl, rfl⟩ : a = 0 ∧ b = 0 := by
      dsimp only at h
      omega
    rfl
  | succ k ih =>
    rw [upTo_succ]
    by_cases hlower : e.x + e.y ≤ k
    · obtain ⟨hplace, -⟩ := List.getElem?_eq_some_iff.1 (ih hlower)
      rw [List.getElem?_append_left hplace, ih hlower]
    · -- the monomials of the highest degree come last
      have hdegree : e.x + e.y = k + 1 := by omega
      have hplace : e.place = (upTo k).length + e.y := by
        rw [place, hdegree, length_upTo, termCount]
      rw [hplace, List.getElem?_append_right (Nat.le_add_right _ _), Nat.add_sub_cancel_left,
        ofDegree, List.getElem?_map, List.getElem?_range (by omega), Option.map_some]
      obtain ⟨a, b⟩ := e
      dsimp only at hdegree ⊢
      rw [← hdegree, Nat.add_sub_cancel]

end Monomial

/-- A monomial of no higher degree than the order has its column. -/
theorem Order.exists_get_eq_of_place {k : Order} {e : Monomial} (h : e.x + e.y ≤ k.degree) :
    ∃ i : Fin k.terms, i.val = e.place ∧ k.monomials.get i = e := by
  have hget := Monomial.getElem?_place h
  obtain ⟨hplace, -⟩ := List.getElem?_eq_some_iff.1 hget
  rw [Monomial.length_upTo] at hplace
  refine ⟨⟨e.place, hplace⟩, rfl, Option.some.inj ?_⟩
  rw [← hget, ← k.getElem?_upTo]

/-! ## The rows -/

namespace Window

variable (w : Window)

theorem offsetX_pixel (u v : Fin w.side) :
    w.offsetX (FitModel.pixel w u v) = (v.val : Int) - w.margin := by
  rw [offsetX, pixel_mod]

theorem offsetY_pixel (u v : Fin w.side) :
    w.offsetY (FitModel.pixel w u v) = (u.val : Int) - w.margin := by
  rw [offsetY, pixel_div]

/-- A pixel has an offset exactly if the offset lies in the window and the pixel is where the offset
says. -/
theorem offset_eq_iff (p : Fin w.area) (x y : Int) :
    (w.offsetX p = x ∧ w.offsetY p = y) ↔
      ((-w.margin ≤ x ∧ x ≤ w.margin) ∧ (-w.margin ≤ y ∧ y ≤ w.margin)) ∧
        (p.val : Int) = (y + w.margin) * w.side + (x + w.margin) := by
  have hside : w.side = 2 * w.margin + 1 := rfl
  obtain ⟨⟨u, v⟩, rfl⟩ := w.pixelEquiv.surjective p
  have hu := u.isLt
  have hv := v.isLt
  have hpixel : ((FitModel.pixel w u v).val : Int) = (u.val : Int) * w.side + v.val := by
    simp only [FitModel.pixel]
    push_cast
    rfl
  rw [pixelEquiv_apply, offsetX_pixel, offsetY_pixel, hpixel]
  constructor
  · rintro ⟨rfl, rfl⟩
    refine ⟨by omega, ?_⟩
    rw [sub_add_cancel, sub_add_cancel]
  · rintro ⟨hrange, hplace⟩
    -- quotient and remainder of the place by the side
    have hquotient (q r : Int) (hr : 0 ≤ r ∧ r < w.side) : (q * w.side + r) / w.side = q := by
      rw [mul_comm, Int.mul_add_ediv_left _ _ (by omega), Int.ediv_eq_zero_of_lt hr.1 hr.2, add_zero]
    have hrow : (u.val : Int) = y + w.margin := by
      rw [← hquotient u.val v.val (by omega), hplace, hquotient _ _ (by omega)]
    rw [hrow] at hplace
    omega

/-- Every offset in the window has its row. -/
theorem exists_offset_eq {x y : Int} (hx : -w.margin ≤ x ∧ x ≤ w.margin)
    (hy : -w.margin ≤ y ∧ y ≤ w.margin) : ∃ p : Fin w.area, w.offsetX p = x ∧ w.offsetY p = y := by
  have hside : w.side = 2 * w.margin + 1 := rfl
  have hcol : (x + w.margin).toNat < w.side := by omega
  have hrow : (y + w.margin).toNat < w.side := by omega
  refine ⟨FitModel.pixel w ⟨_, hrow⟩ ⟨_, hcol⟩, ?_, ?_⟩
  · rw [offsetX_pixel]
    dsimp only
    omega
  · rw [offsetY_pixel]
    dsimp only
    omega

theorem length_offsets : w.offsets.length = w.area := by
  rw [offsets, List.length_map, List.length_range]

theorem getElem?_offsets_eq_some_iff (i : Nat) (x y : Int) :
    w.offsets[i]? = some (x, y) ↔
      ((-w.margin ≤ x ∧ x ≤ w.margin) ∧ (-w.margin ≤ y ∧ y ≤ w.margin)) ∧
        (i : Int) = (y + w.margin) * w.side + (x + w.margin) := by
  by_cases hi : i < w.area
  · have hget : w.offsets[i]? = some (w.offsetX i, w.offsetY i) := by
      rw [offsets, List.getElem?_map, List.getElem?_range hi, Option.map_some]
    rw [hget, Option.some_inj, Prod.mk_inj]
    exact w.offset_eq_iff ⟨i, hi⟩ x y
  · rw [List.getElem?_eq_none (by rw [length_offsets]; omega)]
    refine ⟨nofun, fun ⟨⟨hx, hy⟩, hplace⟩ => ?_⟩
    obtain ⟨p, hp⟩ := w.exists_offset_eq hx hy
    have hp := ((w.offset_eq_iff p x y).1 hp).2
    omega

end Window

/-! ## The entries -/

theorem entry_designMatrix (k : Order) (w : Window) (p : Fin w.area) (i : Fin k.terms) :
    (designMatrix k w).entry p i =
      w.offsetX p ^ (k.monomials.get i).x * w.offsetY p ^ (k.monomials.get i).y :=
  Table.entry_ofFn _ p i

/-- **The layout of the design matrix.** For every order and window, the offsets of the pixels are
all pairs of integers up to the margin, each at one place, which is counted row by row. The design
matrix has a row for each of them and a column for each monomial, of which those of a lower degree
come first and those of one degree by rising power of the row offset; at the row of an offset and the
column of a monomial there is the value of the monomial at the offset. So multiplied with
coefficients, and laid out as the window, it has in each row and column the value of the polynomial
with these coefficients at the offset of the column and that of the row. -/
theorem designMatrix_layout (k : Order) (w : Window) :
    (w.offsets.length = w.side * w.side ∧ ∀ (i : Nat) (x y : Int), w.offsets[i]? = some (x, y) ↔
      ((-w.margin ≤ x ∧ x ≤ w.margin) ∧ (-w.margin ≤ y ∧ y ≤ w.margin)) ∧
        (i : Int) = (y + w.margin) * w.side + (x + w.margin)) ∧
    Design.ofValues k.value w.value = .ok ⟨k, w, designMatrix k w⟩ ∧
    ((designMatrix k w).toList.length = w.side * w.side ∧
      ∀ row ∈ (designMatrix k w).toList,
        row.toList.length = (k.degree + 1) * (k.degree + 2) / 2) ∧
    (∀ (x y : Int) (a b : Nat), -w.margin ≤ x ∧ x ≤ w.margin → -w.margin ≤ y ∧ y ≤ w.margin →
      a + b ≤ k.degree → ∃ (p : Fin w.area) (i : Fin k.terms),
        (p.val : Int) = (y + w.margin) * w.side + (x + w.margin) ∧
        i.val = (a + b) * (a + b + 1) / 2 + b ∧ k.monomials.get i = ⟨a, b⟩ ∧
        (designMatrix k w).entry p i = x ^ a * y ^ b) ∧
    ∀ (K : Type) [CommRing K] (c : Fin k.terms → K) (u v : Fin w.side),
      let A : Matrix (Fin w.area) (Fin k.terms) K :=
        Matrix.of fun p i => ((designMatrix k w).entry p i : K)
      (A.mulVec c) ⟨u.val * w.side + v.val, (FitModel.pixel w u v).isLt⟩ =
        ∑ i, c i * ((v.val : K) - w.margin) ^ (k.monomials.get i).x *
          ((u.val : K) - w.margin) ^ (k.monomials.get i).y := by
  refine ⟨⟨w.length_offsets, w.getElem?_offsets_eq_some_iff⟩, ?_, ⟨?_, fun row _ => ?_⟩, ?_, ?_⟩
  · rw [Design.ofValues, Order.ofValue_value, Window.ofValue_value]
    rfl
  · rw [Vector.length_toList]
    rfl
  · rw [Vector.length_toList]
    rfl
  · intro x y a b hx hy hdegree
    obtain ⟨p, hcol, hrow⟩ := w.exists_offset_eq hx hy
    obtain ⟨i, hplace, hmonomial⟩ := Order.exists_get_eq_of_place (e := ⟨a, b⟩) hdegree
    refine ⟨p, i, ((w.offset_eq_iff p x y).1 ⟨hcol, hrow⟩).2, hplace, hmonomial, ?_⟩
    rw [entry_designMatrix, hcol, hrow, hmonomial]
  · intro K _ c u v A
    show ∑ i, (((designMatrix k w).entry (FitModel.pixel w u v) i : Int) : K) * c i = _
    refine Finset.sum_congr rfl fun i _ => ?_
    rw [entry_designMatrix, w.offsetX_pixel, w.offsetY_pixel]
    push_cast
    ring

/-- In a window of five pixels on a side the pixel at the lower left corner, two to the left and two
below, is the twenty-first, and the square of the row offset times the column offset is the ninth
monomial. -/
theorem designMatrix_layout_order_three :
    let k : Order := ⟨3, by decide, by decide⟩
    let w : Window := ⟨2, by decide⟩
    (-(w.margin : Int) ≤ -2 ∧ -2 ≤ (w.margin : Int)) ∧
      (-(w.margin : Int) ≤ 2 ∧ 2 ≤ (w.margin : Int)) ∧ 1 + 2 ≤ k.degree ∧
      ∃ (p : Fin w.area) (i : Fin k.terms), p.val = 20 ∧ i.val = 8 ∧
        k.monomials.get i = ⟨1, 2⟩ ∧ (designMatrix k w).entry p i = -8 := by
  intro k w
  obtain ⟨-, -, -, hentry, -⟩ := designMatrix_layout k w
  obtain ⟨p, i, hrow, hcol, hmonomial, hvalue⟩ :=
    hentry (-2) 2 1 2 (by decide) (by decide) (by decide)
  refine ⟨by decide, by decide, by decide, p, i, ?_, hcol, hmonomial, hvalue⟩
  exact Int.ofNat.inj hrow

end Facet
