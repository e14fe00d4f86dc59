import Mathlib
import Facet.Plane.PointArray
import Facet.Proofs.PointMapping
import Facet.Proofs.Words

/-!
# Arrays of points

Points in an array are mapped in 64-bit arithmetic, which wraps around, single points in whole
numbers of any size. The two agree at a coordinate exactly if the difference (towards features) or
the sum (towards the image) fits in 64 bits. It does no harm if the product in the sum wraps, since
the sum wraps back; but a difference that wraps never has the right quotient, because it is off by
more than any stride that fits. From features to centres and back it is the other way round: there
the product has to fit, whether or not the sum does.
-/

namespace Facet

/-! ## 64-bit arithmetic -/

theorem fitsWord_toInt (a : Int64) : FitsWord a.toInt := ⟨a.le_toInt, a.toInt_lt⟩

theorem fitsWord_bmod (v : Int) : FitsWord (v.bmod (2 ^ 64)) := by
  have hlow := Int.le_bmod (x := v) (m := 2 ^ 64) (by norm_num)
  have hhigh := Int.bmod_lt (x := v) (m := 2 ^ 64) (by norm_num)
  unfold FitsWord
  omega

theorem bmod_eq_self_iff (v : Int) : v.bmod (2 ^ 64) = v ↔ FitsWord v := by
  constructor
  · intro h
    rw [← h]
    exact fitsWord_bmod v
  · rintro ⟨hlow, hhigh⟩
    exact Int.bmod_eq_of_le (by omega) (by omega)

/-- What wraps is off by the number of all words at least. -/
theorem bmod_sub_self_of_not_fits {v : Int} (h : ¬FitsWord v) :
    v.bmod (2 ^ 64) - v ≤ -2 ^ 64 ∨ 2 ^ 64 ≤ v.bmod (2 ^ 64) - v := by
  have hne : v.bmod (2 ^ 64) ≠ v := fun heq => h ((bmod_eq_self_iff v).1 heq)
  obtain ⟨k, hk⟩ : ∃ k, v.bmod (2 ^ 64) = v - 2 ^ 64 * k :=
    ⟨_, Int.bmod_eq_self_sub_mul_bdiv v (2 ^ 64)⟩
  omega

/-- A number and the word that it wraps to have the same quotient only if they are the same. -/
theorem bmod_ediv_eq_iff {v step : Int} (hstep : 0 < step) (hfits : FitsWord step) :
    v.bmod (2 ^ 64) / step = v / step ↔ FitsWord v := by
  constructor
  · intro hquotient
    by_contra hv
    have hoff := bmod_sub_self_of_not_fits hv
    have hown := Int.emod_add_mul_ediv v step
    have hword := Int.emod_add_mul_ediv (v.bmod (2 ^ 64)) step
    have hownLow := Int.emod_nonneg v hstep.ne'
    have hownHigh := Int.emod_lt_of_pos v hstep
    have hwordLow := Int.emod_nonneg (v.bmod (2 ^ 64)) hstep.ne'
    have hwordHigh := Int.emod_lt_of_pos (v.bmod (2 ^ 64)) hstep
    have hlength := hfits.2
    rw [hquotient] at hword
    omega
  · intro hv
    rw [(bmod_eq_self_iff v).2 hv]

namespace Mapping

/-- A quotient by a positive number fits. -/
theorem toInt_floorDiv {a b : Int64} (hb : 0 < b.toInt) :
    (floorDiv a b).toInt = a.toInt / b.toInt := by
  obtain ⟨hlow, hhigh⟩ := fitsWord_toInt a
  have hfits : FitsWord (a.toInt / b.toInt) := by
    constructor
    · rw [Int.le_ediv_iff_mul_le hb]
      nlinarith
    · rw [Int.ediv_lt_iff_lt_mul hb]
      nlinarith
  rw [floorDiv, Int.fdiv_eq_ediv_of_nonneg _ hb.le, Int64.toInt_ofInt]
  exact (bmod_eq_self_iff _).2 hfits

theorem toInt_ofInt_of_fits {v : Int} (h : FitsWord v) : (Int64.ofInt v).toInt = v := by
  rw [Int64.toInt_ofInt]
  exact (bmod_eq_self_iff v).2 h

/-! ## Coordinates -/

variable {m : Mapping}

/-- The margin as a word. -/
def marginWord (m : Mapping) : Int64 := Int64.ofInt m.margin

/-- The stride as a word. -/
def stepWord (m : Mapping) : Int64 := Int64.ofInt m.stride.step

/-- What becomes of a coordinate of an array on the way to features. -/
def featureWord (m : Mapping) (v : Int64) : Int64 := floorDiv (v - m.marginWord) m.stepWord

/-- What becomes of it on the way to the image. -/
def imageWord (m : Mapping) (v : Int64) : Int64 := v * m.stepWord + m.marginWord

theorem words_eq (hmargin : FitsWord m.margin) (hstep : FitsWord m.stride.step) :
    m.words = .ok (m.marginWord, m.stepWord) := by
  have hword {v : Int} (hv : FitsWord v) : (Value.int v).toWord = .ok (Int64.ofInt v) := by
    simp only [Value.toWord, Value.toInt, Value.integer?, Option.getD_some, ok_bind,
      (fitsSigned_iff v).2 hv, if_true]
    rfl
  rw [words, hword hmargin, hword hstep]
  rfl

theorem toInt_featureWord_iff (hmargin : FitsWord m.margin) (hstep : FitsWord m.stride.step)
    (v : Int64) :
    (m.featureWord v).toInt = m.toFeature v.toInt ↔ FitsWord (v.toInt - m.margin) := by
  have hpos := m.step_pos
  have hword : m.stepWord.toInt = m.stride.step := toInt_ofInt_of_fits hstep
  rw [featureWord, toInt_floorDiv (by rw [hword]; exact hpos), Int64.toInt_sub, hword, marginWord,
    toInt_ofInt_of_fits hmargin, toFeature, Int.fdiv_eq_ediv_of_nonneg _ hpos.le]
  exact bmod_ediv_eq_iff hpos hstep

/-- The product may wrap, as long as the sum fits. -/
theorem toInt_imageWord_iff (hmargin : FitsWord m.margin) (hstep : FitsWord m.stride.step)
    (v : Int64) :
    (m.imageWord v).toInt = m.toImage v.toInt ↔ FitsWord (m.toImage v.toInt) := by
  rw [imageWord, Int64.toInt_add, Int64.toInt_mul, Int.bmod_add_bmod, stepWord, marginWord,
    toInt_ofInt_of_fits hstep, toInt_ofInt_of_fits hmargin]
  exact bmod_eq_self_iff _

/-- The margin is added and taken away again, so only the product counts. -/
theorem featureWord_imageWord_iff (hstep : FitsWord m.stride.step) (v : Int64) :
    m.featureWord (m.imageWord v) = v ↔ FitsWord (v.toInt * m.stride.step) := by
  have hpos := m.step_pos
  have hword : m.stepWord.toInt = m.stride.step := toInt_ofInt_of_fits hstep
  have hquotient : v.toInt * m.stride.step / m.stride.step = v.toInt :=
    Int.mul_ediv_cancel _ hpos.ne'
  rw [← Int64.toInt_inj, featureWord, imageWord, toInt_floorDiv (by rw [hword]; exact hpos),
    Int64.add_sub_cancel, Int64.toInt_mul, hword]
  conv_lhs => rhs; rw [← hquotient]
  exact bmod_ediv_eq_iff hpos hstep

end Mapping

/-! ## Arrays -/

section Rows

variable {β γ : Type} {n : Nat}

theorem Tensor.entry₂_map (f : β → γ) (entries : Vector β (extent [n, 2])) (r : Fin n) (c : Fin 2) :
    entry₂ (entries.map f) r c = f (entry₂ entries r c) := by
  simp [entry₂]

theorem Tensor.ext_entry₂ {a b : Vector β (extent [n, 2])}
    (h : ∀ r c, entry₂ a r c = entry₂ b r c) : a = b := by
  refine Vector.ext fun i hi => ?_
  have hin : i < n * 2 := by simpa [extent] using hi
  have hentry := h ⟨i / 2, by omega⟩ ⟨i % 2, by omega⟩
  have hplace : i / 2 * 2 + i % 2 = i := by omega
  simpa [entry₂, hplace] using hentry

end Rows

namespace PointArray

variable {n : Nat}

/-- A coordinate of an array with two columns. -/
def coordinate (points : Vector Int64 (extent [n, 2])) (r : Fin n) (c : Fin 2) : Int :=
  (Tensor.entry₂ points r c).toInt

/-- The point in a row. -/
def point (points : Vector Int64 (extent [n, 2])) (r : Fin n) : Point :=
  ⟨coordinate points r ⟨0, Nat.two_pos⟩, coordinate points r ⟨1, Nat.one_lt_two⟩⟩

theorem point_eq (points : Vector Int64 (extent [n, 2])) (r : Fin n) :
    point points r = ⟨coordinate points r 0, coordinate points r 1⟩ := rfl

theorem coordinate_map (f : Int64 → Int64) (points : Vector Int64 (extent [n, 2])) (r : Fin n)
    (c : Fin 2) : coordinate (points.map f) r c = (f (Tensor.entry₂ points r c)).toInt := by
  rw [coordinate, Tensor.entry₂_map]

end PointArray

namespace Mapping

open PointArray

variable {m : Mapping} {n : Nat}

theorem imageToFeatureArray_eq (hmargin : FitsWord m.margin) (hstep : FitsWord m.stride.step)
    (points : PointArray) :
    m.imageToFeatureArray points = .ok (points.map m.featureWord) := by
  rw [imageToFeatureArray, words_eq hmargin hstep]
  rfl

theorem featureToImageArray_eq (hmargin : FitsWord m.margin) (hstep : FitsWord m.stride.step)
    (points : PointArray) :
    m.featureToImageArray points = .ok (points.map m.imageWord) := by
  rw [featureToImageArray, words_eq hmargin hstep]
  rfl

theorem map_featureWord_imageWord_iff (hstep : FitsWord m.stride.step)
    (points : Vector Int64 (extent [n, 2])) :
    (points.map m.imageWord).map m.featureWord = points ↔
      ∀ r c, FitsWord (coordinate points r c * m.stride.step) := by
  constructor
  · intro hsame r c
    have hentry : Tensor.entry₂ ((points.map m.imageWord).map m.featureWord) r c =
        Tensor.entry₂ points r c := by rw [hsame]
    rw [Tensor.entry₂_map, Tensor.entry₂_map] at hentry
    exact (featureWord_imageWord_iff hstep _).1 hentry
  · intro hfits
    refine Tensor.ext_entry₂ fun r c => ?_
    rw [Tensor.entry₂_map, Tensor.entry₂_map]
    exact (featureWord_imageWord_iff hstep _).2 (hfits r c)

/-- **Arrays of points against points.** Under a mapping whose margin and stride fit in 64 bits an
array with two columns is mapped to one with as many rows. A coordinate is mapped to a feature as
that of a point is exactly if its difference from the margin fits in 64 bits, and to the image
exactly if the sum does, even where the product in it does not. So an array whose coordinates are
free of these overflows is mapped row by row as its points are. From features to centres and back a
coordinate is the same again exactly if the product of it and the stride fits, so that the array is
the same again exactly if all these products fit; they do if neither of the two steps overflows. -/
theorem arrays_of_points (hmargin : FitsWord m.margin) (hstep : FitsWord m.stride.step)
    (points : Vector Int64 (extent [n, 2])) :
    let source := PointArray.ofTensor ⟨[n, 2], points⟩
    ∃ features centres back : Vector Int64 (extent [n, 2]),
      (m.imageToFeatureArray source = .ok ⟨[n, 2], features⟩ ∧
        m.featureToImageArray source = .ok ⟨[n, 2], centres⟩ ∧
        m.imageToFeatureArray ⟨[n, 2], centres⟩ = .ok ⟨[n, 2], back⟩) ∧
      (∀ r c, let v := coordinate points r c
        (coordinate features r c = m.toFeature v ↔ FitsWord (v - m.margin)) ∧
        (coordinate centres r c = m.toImage v ↔ FitsWord (v * m.stride.step + m.margin)) ∧
        (coordinate back r c = v ↔ FitsWord (v * m.stride.step))) ∧
      ((∀ r c, FitsWord (coordinate points r c - m.margin)) →
        ∀ r, point features r = m.imageToFeature (point points r)) ∧
      ((∀ r c, FitsWord (coordinate points r c * m.stride.step + m.margin)) →
        ∀ r, point centres r = m.featureToImage (point points r)) ∧
      (back = points ↔ ∀ r c, FitsWord (coordinate points r c * m.stride.step)) ∧
      ((∀ r c, FitsWord (coordinate points r c * m.stride.step + m.margin) ∧
        FitsWord (coordinate centres r c - m.margin)) → back = points) := by
  intro source
  have hfeature (r : Fin n) (c : Fin 2) :=
    toInt_featureWord_iff hmargin hstep (Tensor.entry₂ points r c)
  have hcentre (r : Fin n) (c : Fin 2) :=
    toInt_imageWord_iff hmargin hstep (Tensor.entry₂ points r c)
  have hback (r : Fin n) (c : Fin 2) := featureWord_imageWord_iff hstep (Tensor.entry₂ points r c)
  have hreturns := map_featureWord_imageWord_iff hstep points
  refine ⟨points.map m.featureWord, points.map m.imageWord,
    (points.map m.imageWord).map m.featureWord, ⟨?_, ?_, ?_⟩, ?_, ?_, ?_, hreturns, ?_⟩
  · exact imageToFeatureArray_eq hmargin hstep source
  · exact featureToImageArray_eq hmargin hstep source
  · exact imageToFeatureArray_eq hmargin hstep _
  · intro r c
    dsimp only
    rw [coordinate_map, coordinate_map, coordinate_map, Tensor.entry₂_map]
    exact ⟨hfeature r c, hcentre r c, Int64.toInt_inj.trans (hback r c)⟩
  · intro hfits r
    rw [point_eq, coordinate_map, coordinate_map, (hfeature r 0).2 (hfits r 0),
      (hfeature r 1).2 (hfits r 1)]
    rfl
  · intro hfits r
    rw [point_eq, coordinate_map, coordinate_map, (hcentre r 0).2 (hfits r 0),
      (hcentre r 1).2 (hfits r 1)]
    rfl
  · intro hfits
    refine hreturns.2 fun r c => ?_
    obtain ⟨hsum, hdifference⟩ := hfits r c
    rw [coordinate_map, (hcentre r c).2 hsum, toImage, Int.add_sub_cancel] at hdifference
    exact hdifference

/-- Three rows under windows of three pixels, three pixels apart. In the second row the product of
the first coordinate and the stride does not fit but the sum does, and in the third the difference of
the first coordinate from the margin does not fit. -/
theorem arrays_of_points_three_rows :
    let m : Mapping := ⟨⟨1, by decide⟩, ⟨3, by decide⟩⟩
    let points : Vector Int64 (extent [3, 2]) := #v[7, -4,
      -3074457345618258603, 2, -9223372036854775808, 5]
    (FitsWord m.margin ∧ FitsWord m.stride.step) ∧
      ∃ features centres : Vector Int64 (extent [3, 2]),
        m.imageToFeatureArray ⟨[3, 2], points⟩ = .ok ⟨[3, 2], features⟩ ∧
        m.featureToImageArray ⟨[3, 2], points⟩ = .ok ⟨[3, 2], centres⟩ ∧
        coordinate features 0 1 = -2 ∧ coordinate centres 1 0 = -9223372036854775808 ∧
        coordinate features 2 0 ≠ -3074457345618258603 := by
  intro m points
  have hmargin : FitsWord m.margin := by decide
  have hstep : FitsWord m.stride.step := by decide
  obtain ⟨features, centres, _, ⟨hfeatures, hcentres, -⟩, hentries, -⟩ :=
    arrays_of_points hmargin hstep points
  refine ⟨⟨hmargin, hstep⟩, features, centres, hfeatures, hcentres, ?_, ?_, ?_⟩
  · exact (hentries 0 1).1.2 (by decide)
  · exact (hentries 1 0).2.1.2 (by decide)
  · intro h
    exact absurd ((hentries 2 0).1.1 h) (by decide)

/-- For the way back it is not enough that the differences and the sums of an array fit. The centre
of the first coordinate here is the least number of 64 bits. -/
theorem not_returned_third_of_least :
    ¬∀ (m : Mapping) (n : Nat) (points centres : Vector Int64 (extent [n, 2])),
      FitsWord m.margin → FitsWord m.stride.step →
      (∀ r c, FitsWord (coordinate points r c - m.margin) ∧
        FitsWord (coordinate points r c * m.stride.step + m.margin)) →
      m.featureToImageArray ⟨[n, 2], points⟩ = .ok ⟨[n, 2], centres⟩ →
      m.imageToFeatureArray ⟨[n, 2], centres⟩ = .ok ⟨[n, 2], points⟩ := by
  intro h
  let m : Mapping := ⟨⟨1, by decide⟩, ⟨3, by decide⟩⟩
  let points : Vector Int64 (extent [1, 2]) := #v[-3074457345618258603, 0]
  have hmargin : FitsWord m.margin := by decide
  have hstep : FitsWord m.stride.step := by decide
  have hreturned := h m 1 points (points.map m.imageWord) hmargin hstep (by decide)
    (featureToImageArray_eq hmargin hstep _)
  rw [imageToFeatureArray_eq hmargin hstep] at hreturned
  injection hreturned with hreturned
  injection hreturned with _ hentries
  have hfits := (map_featureWord_imageWord_iff hstep points).1 hentries 0 0
  exact absurd hfits (by decide)

end Mapping

end Facet
