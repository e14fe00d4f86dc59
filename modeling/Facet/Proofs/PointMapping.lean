import Mathlib
import Facet.Proofs.Places

/-!
# Features and their centres

Mapping a feature to its centre and mapping a pixel to its feature are the two halves of one law. On
each axis a place lies no further than the feature of a pixel exactly if its centre lies no further
than the pixel. Everything else follows from this law, for coordinates of any size and sign: which
pixels belong to a feature, that a centre belongs to its own feature, and that a rectangle of pixels
is mapped to the features of its pixels, although only its corners are mapped.
-/

namespace Facet

/-! ## One axis -/

namespace Mapping

variable (m : Mapping)

theorem step_pos : (0 : Int) < m.stride.step := by
  exact_mod_cast m.stride.one_le

/-- **The law of centres** on one axis. -/
theorem le_toFeature_iff (n v : Int) : n ≤ m.toFeature v ↔ m.toImage n ≤ v := by
  have hdiv := Int.le_ediv_iff_mul_le (a := n) (b := v - m.margin) m.step_pos
  rw [toFeature, Int.fdiv_eq_ediv_of_nonneg _ m.step_pos.le, hdiv, toImage]
  omega

theorem toImage_succ (n : Int) : m.toImage (n + 1) = m.toImage n + m.stride.step := by
  simp only [toImage]
  ring

/-- A place has the pixels from its centre on, up to the next centre. -/
theorem toFeature_eq_iff (n v : Int) :
    m.toFeature v = n ↔ m.toImage n ≤ v ∧ v < m.toImage n + m.stride.step := by
  have hfirst := m.le_toFeature_iff n v
  have hnext := m.le_toFeature_iff (n + 1) v
  rw [toImage_succ] at hnext
  omega

theorem toFeature_toImage (n : Int) : m.toFeature (m.toImage n) = n := by
  have hstep := m.step_pos
  rw [toFeature_eq_iff]
  omega

theorem toImage_le_toImage_iff (a b : Int) : m.toImage a ≤ m.toImage b ↔ a ≤ b := by
  rw [← le_toFeature_iff, toFeature_toImage]

/-- Between the features of the first and the last pixel of a line lie the features of its pixels
and no others. -/
theorem exists_toFeature_eq_iff {first last : Int} (h : first ≤ last) (n : Int) :
    (∃ v, (first ≤ v ∧ v ≤ last) ∧ m.toFeature v = n) ↔
      m.toFeature first ≤ n ∧ n ≤ m.toFeature last := by
  constructor
  · rintro ⟨v, ⟨hfirst, hlast⟩, rfl⟩
    have hown := (m.le_toFeature_iff (m.toFeature v) v).1 le_rfl
    have hbelow := (m.le_toFeature_iff (m.toFeature first) first).1 le_rfl
    exact ⟨(m.le_toFeature_iff _ _).2 (hbelow.trans hfirst),
      (m.le_toFeature_iff _ _).2 (hown.trans hlast)⟩
  · rintro ⟨hfirst, hlast⟩
    have hcentre := (m.le_toFeature_iff n last).1 hlast
    -- the centre of the place, unless the line begins behind it
    by_cases hinside : first ≤ m.toImage n
    · exact ⟨m.toImage n, ⟨hinside, hcentre⟩, m.toFeature_toImage n⟩
    · have hbehind : n ≤ m.toFeature first := (m.le_toFeature_iff n first).2 (not_le.1 hinside).le
      exact ⟨first, ⟨le_rfl, h⟩, le_antisymm hfirst hbehind⟩

/-! ## Coordinates as values -/

theorem toFeatureOf_int (v : Int) : m.toFeatureOf (.int v) = .ok (.int (m.toFeature v)) := by
  show (Number.value <$> Number.floored (.whole (v - m.margin)) (.whole m.stride.step) :
    Except ArgumentFault Value) = _
  rw [Number.floored, if_neg m.step_pos.ne']
  rfl

theorem toImageOf_int (v : Int) : m.toImageOf (.int v) = .ok (.int (m.toImage v)) := rfl

/-- Whole coordinates of any size are mapped like points. -/
theorem imageToFeatureOf_point (p : Point) :
    m.imageToFeatureOf (.list [.int p.x, .int p.y]) =
      .ok (.int (m.imageToFeature p).x, .int (m.imageToFeature p).y) := by
  simp only [imageToFeatureOf, Value.pair, Value.items?, ok_bind, toFeatureOf_int]
  rfl

theorem featureToImageOf_point (p : Point) :
    m.featureToImageOf (.list [.int p.x, .int p.y]) =
      .ok (.int (m.featureToImage p).x, .int (m.featureToImage p).y) := by
  simp only [featureToImageOf, Value.pair, Value.items?, ok_bind, toImageOf_int]
  rfl

end Mapping

/-! ## Points -/

theorem Point.eq_iff {p q : Point} : p = q ↔ p.x = q.x ∧ p.y = q.y := by
  cases p
  cases q
  simp

/-- Points are compared coordinate by coordinate. -/
instance : PartialOrder Point where
  le p q := p.x ≤ q.x ∧ p.y ≤ q.y
  le_refl p := ⟨le_rfl, le_rfl⟩
  le_trans p q r hpq hqr := ⟨hpq.1.trans hqr.1, hpq.2.trans hqr.2⟩
  le_antisymm p q hpq hqp := Point.eq_iff.2 ⟨le_antisymm hpq.1 hqp.1, le_antisymm hpq.2 hqp.2⟩

theorem Point.le_iff {p q : Point} : p ≤ q ↔ p.x ≤ q.x ∧ p.y ≤ q.y := Iff.rfl

namespace Mapping

variable (m : Mapping)

theorem featureToImage_gc : GaloisConnection m.featureToImage m.imageToFeature := by
  intro p q
  rw [Point.le_iff, Point.le_iff]
  exact and_congr (m.le_toFeature_iff p.x q.x).symm (m.le_toFeature_iff p.y q.y).symm

theorem imageToFeature_eq_iff (p q : Point) :
    m.imageToFeature q = p ↔
      ((m.featureToImage p).x ≤ q.x ∧ q.x < (m.featureToImage p).x + m.stride.step) ∧
        ((m.featureToImage p).y ≤ q.y ∧ q.y < (m.featureToImage p).y + m.stride.step) := by
  rw [Point.eq_iff]
  exact and_congr (m.toFeature_eq_iff p.x q.x) (m.toFeature_eq_iff p.y q.y)

theorem imageToFeature_featureToImage (p : Point) : m.imageToFeature (m.featureToImage p) = p := by
  rw [Point.eq_iff]
  exact ⟨m.toFeature_toImage p.x, m.toFeature_toImage p.y⟩

/-- **Pixels and features.** Points of any size and sign are mapped coordinate by coordinate as
values. A pixel belongs to a feature exactly if, on both axes, it lies less than a stride behind the
centre. A feature lies no further than that of a pixel exactly if its centre lies no further than
the pixel. So a centre is mapped back to its feature, both mappings keep the order, and the centre
of the feature of a pixel is the greatest centre that does not lie beyond the pixel, at most a
stride less one before it. -/
theorem points_of_centres :
    (∀ p : Point,
      m.imageToFeatureOf (.list [.int p.x, .int p.y]) =
        .ok (.int (m.imageToFeature p).x, .int (m.imageToFeature p).y) ∧
      m.featureToImageOf (.list [.int p.x, .int p.y]) =
        .ok (.int (m.featureToImage p).x, .int (m.featureToImage p).y)) ∧
    (∀ p q : Point, m.imageToFeature q = p ↔
      let centre := m.featureToImage p
      (centre.x ≤ q.x ∧ q.x < centre.x + m.stride.step) ∧
        (centre.y ≤ q.y ∧ q.y < centre.y + m.stride.step)) ∧
    (∀ p q : Point, p ≤ m.imageToFeature q ↔ m.featureToImage p ≤ q) ∧
    (∀ p : Point, m.imageToFeature (m.featureToImage p) = p) ∧
    (Monotone m.imageToFeature ∧ Monotone m.featureToImage) ∧
    ∀ q : Point,
      let centre := m.featureToImage (m.imageToFeature q)
      IsGreatest {c | c ∈ Set.range m.featureToImage ∧ c ≤ q} centre ∧
        q.x - centre.x ≤ m.stride.step - 1 ∧ q.y - centre.y ≤ m.stride.step - 1 := by
  have hlaw := m.featureToImage_gc
  refine ⟨fun p => ⟨m.imageToFeatureOf_point p, m.featureToImageOf_point p⟩,
    m.imageToFeature_eq_iff, fun p q => (hlaw p q).symm, m.imageToFeature_featureToImage,
    ⟨hlaw.monotone_u, hlaw.monotone_l⟩, ?_⟩
  intro q
  dsimp only
  obtain ⟨⟨-, hx⟩, -, hy⟩ := (m.imageToFeature_eq_iff (m.imageToFeature q) q).1 rfl
  refine ⟨⟨⟨⟨m.imageToFeature q, rfl⟩, hlaw.l_u_le q⟩, ?_⟩, ?_, ?_⟩
  · rintro c ⟨⟨p, rfl⟩, hp⟩
    exact hlaw.monotone_l ((hlaw p q).1 hp)
  · omega
  · omega

end Mapping

/-! ## Rectangles -/

namespace Rectangle

/-- The edges of a rectangle as values. -/
def edges (r : Rectangle) : List Value := [.int r.left, .int r.top, .int r.right, .int r.bottom]

theorem isEmpty_eq_false_iff (r : Rectangle) :
    r.isEmpty = false ↔ r.left ≤ r.right ∧ r.top ≤ r.bottom := by
  rw [isEmpty, Bool.or_eq_false_iff, decide_eq_false_iff_not, decide_eq_false_iff_not, width,
    height]
  omega

end Rectangle

namespace Mapping

variable (m : Mapping)

theorem imageToFeatureEdges_edges (r : Rectangle) :
    m.imageToFeatureEdges r.edges = .ok (m.imageToFeatureRect r).edges := by
  simp only [imageToFeatureEdges, Rectangle.edges, List.mapM_cons, List.mapM_nil, toFeatureOf_int,
    ok_bind]
  rfl

theorem featureToImageEdges_edges (r : Rectangle) :
    m.featureToImageEdges r.edges = .ok (m.featureToImageRect r).edges := by
  simp only [featureToImageEdges, Rectangle.edges, List.mapM_cons, List.mapM_nil, toImageOf_int,
    ok_bind]
  rfl

theorem imageToFeatureRect_contains_iff {r : Rectangle} (h : r.isEmpty = false) (f : Point) :
    (m.imageToFeatureRect r).contains f ↔ ∃ q, r.contains q ∧ m.imageToFeature q = f := by
  obtain ⟨hacross, hdown⟩ := r.isEmpty_eq_false_iff.1 h
  have hx := m.exists_toFeature_eq_iff hacross f.x
  have hy := m.exists_toFeature_eq_iff hdown f.y
  rw [Rectangle.contains_iff]
  constructor
  · rintro ⟨hcols, hrows⟩
    obtain ⟨x, hxr, hxf⟩ := hx.2 hcols
    obtain ⟨y, hyr, hyf⟩ := hy.2 hrows
    exact ⟨⟨x, y⟩, (r.contains_iff _).2 ⟨hxr, hyr⟩, Point.eq_iff.2 ⟨hxf, hyf⟩⟩
  · rintro ⟨q, hq, hqf⟩
    obtain ⟨hxr, hyr⟩ := (r.contains_iff q).1 hq
    obtain ⟨hxf, hyf⟩ := Point.eq_iff.1 hqf
    exact ⟨hx.1 ⟨q.x, hxr, hxf⟩, hy.1 ⟨q.y, hyr, hyf⟩⟩

theorem featureToImageRect_contains_iff (r : Rectangle) (f : Point) :
    (m.featureToImageRect r).contains (m.featureToImage f) ↔ r.contains f := by
  rw [Rectangle.contains_iff, Rectangle.contains_iff, ← m.toImage_le_toImage_iff r.left,
    ← m.toImage_le_toImage_iff f.x, ← m.toImage_le_toImage_iff r.top,
    ← m.toImage_le_toImage_iff f.y]
  rfl

theorem imageToFeatureRect_featureToImageRect (r : Rectangle) :
    m.imageToFeatureRect (m.featureToImageRect r) = r := by
  simp only [imageToFeatureRect, featureToImageRect, Rectangle.ofCorners, Rectangle.topLeft,
    Rectangle.bottomRight, imageToFeature, featureToImage, toFeature_toImage]

/-- **Rectangles of pixels and of features.** Rectangles are mapped edge by edge as values. A
rectangle of pixels that is not empty is mapped to exactly the features of its pixels. (Both corners
of an empty one may belong to one feature, which it is then mapped to.) Any rectangle of features,
also an empty or an inverted one, is found again from the rectangle of its centres, and that holds
the centre of a feature exactly if the rectangle of features holds the feature. -/
theorem rectangles_of_centres :
    (∀ r : Rectangle, m.imageToFeatureEdges r.edges = .ok (m.imageToFeatureRect r).edges ∧
      m.featureToImageEdges r.edges = .ok (m.featureToImageRect r).edges) ∧
    (∀ r : Rectangle, r.isEmpty = false → ∀ f,
      (m.imageToFeatureRect r).contains f ↔ ∃ q, r.contains q ∧ m.imageToFeature q = f) ∧
    (∀ r : Rectangle, m.imageToFeatureRect (m.featureToImageRect r) = r) ∧
    ∀ (r : Rectangle) (f : Point),
      (m.featureToImageRect r).contains (m.featureToImage f) ↔ r.contains f :=
  ⟨fun r => ⟨m.imageToFeatureEdges_edges r, m.featureToImageEdges_edges r⟩,
    fun _ hr f => m.imageToFeatureRect_contains_iff hr f,
    m.imageToFeatureRect_featureToImageRect, m.featureToImageRect_contains_iff⟩

/-- Under windows of five pixels on a side, three pixels apart, a rectangle of ten by two pixels
that begins to the left of the image is mapped to four features in the row before the first. -/
theorem rectangles_of_centres_ten_by_two :
    let m : Mapping := ⟨⟨2, by decide⟩, ⟨3, by decide⟩⟩
    let r : Rectangle := ⟨-5, 0, 4, 1⟩
    r.isEmpty = false ∧ m.imageToFeatureRect r = ⟨-3, -1, 0, -1⟩ ∧
      (∃ q, r.contains q ∧ m.imageToFeature q = ⟨-2, -1⟩) ∧
      ¬∃ q, r.contains q ∧ m.imageToFeature q = ⟨0, 0⟩ := by
  intro m r
  have hr : r.isEmpty = false := by decide
  have hfeatures := m.rectangles_of_centres.2.1 r hr
  refine ⟨hr, by decide, ?_, ?_⟩
  · rw [← hfeatures]
    decide
  · rw [← hfeatures]
    decide

end Mapping

end Facet
