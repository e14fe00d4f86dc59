import Mathlib
import Facet.Proofs.LeastSquares

/-!
# Symmetries of the descriptors

A window may be transposed or mirrored. The monomials over it are then exchanged or change their
signs, and since a matrix has only one pseudo-inverse, the rows of the operator do the same. An
image that is transposed or mirrored has the same windows in another order, as long as no pixels are
left over at its end where there were none at its beginning; so its descriptors are those of the
image, in another order, with components exchanged or with other signs.
-/

namespace Facet

open Matrix

variable {K : Type} [Field K]

/-! ## There is only one pseudo-inverse -/

namespace IsPseudoInverse

variable {m n : Nat} {a : Table K m n} {x y : Table K n m}

/-- The projection onto what the matrix reaches depends on the matrix alone. -/
theorem mul_left_unique (hx : IsPseudoInverse a x) (hy : IsPseudoInverse a y) :
    a.toMatrix * x.toMatrix = a.toMatrix * y.toMatrix := by
  have hproduct : a.toMatrix * y.toMatrix * (a.toMatrix * x.toMatrix) =
      a.toMatrix * x.toMatrix := by
    rw [← Matrix.mul_assoc, hy.outer]
  have hreversed : a.toMatrix * x.toMatrix * (a.toMatrix * y.toMatrix) =
      a.toMatrix * y.toMatrix := by
    rw [← Matrix.mul_assoc, hx.outer]
  calc a.toMatrix * x.toMatrix = (a.toMatrix * x.toMatrix)ᵀ := hx.symm_left.symm
    _ = (a.toMatrix * y.toMatrix * (a.toMatrix * x.toMatrix))ᵀ := by rw [hproduct]
    _ = a.toMatrix * x.toMatrix * (a.toMatrix * y.toMatrix) := by
      rw [transpose_mul, hx.symm_left, hy.symm_left]
    _ = a.toMatrix * y.toMatrix := hreversed

/-- So does the projection onto what the pseudo-inverse reaches. -/
theorem mul_right_unique (hx : IsPseudoInverse a x) (hy : IsPseudoInverse a y) :
    x.toMatrix * a.toMatrix = y.toMatrix * a.toMatrix := by
  have hproduct : x.toMatrix * a.toMatrix * (y.toMatrix * a.toMatrix) =
      x.toMatrix * a.toMatrix := by
    rw [Matrix.mul_assoc, ← Matrix.mul_assoc a.toMatrix, hy.outer]
  have hreversed : y.toMatrix * a.toMatrix * (x.toMatrix * a.toMatrix) =
      y.toMatrix * a.toMatrix := by
    rw [Matrix.mul_assoc, ← Matrix.mul_assoc a.toMatrix, hx.outer]
  calc x.toMatrix * a.toMatrix = (x.toMatrix * a.toMatrix)ᵀ := hx.symm_right.symm
    _ = (x.toMatrix * a.toMatrix * (y.toMatrix * a.toMatrix))ᵀ := by rw [hproduct]
    _ = y.toMatrix * a.toMatrix * (x.toMatrix * a.toMatrix) := by
      rw [transpose_mul, hx.symm_right, hy.symm_right]
    _ = y.toMatrix * a.toMatrix := hreversed

/-- **A matrix has only one pseudo-inverse.** -/
theorem unique (hx : IsPseudoInverse a x) (hy : IsPseudoInverse a y) :
    x.toMatrix = y.toMatrix := by
  calc x.toMatrix = x.toMatrix * (a.toMatrix * x.toMatrix) := by
        rw [← Matrix.mul_assoc, hx.inner]
    _ = y.toMatrix * a.toMatrix * y.toMatrix := by
        rw [hx.mul_left_unique hy, ← Matrix.mul_assoc, hx.mul_right_unique hy]
    _ = y.toMatrix := hy.inner

end IsPseudoInverse

/-! ## Symmetries of a window -/

/-- A way to move the pixels of a window which only exchanges the monomials over it and changes
their signs. -/
structure WindowSymmetry (K : Type) [Field K] (k : Order) (w : Window) where
  /-- Where a pixel, given by its row and its column, is moved. -/
  place : Equiv.Perm (Fin w.side × Fin w.side)
  /-- The monomial that a monomial becomes. -/
  term : Equiv.Perm (Fin k.terms)
  /-- The sign that it gets. -/
  sign : Fin k.terms → K
  /-- A sign is its own inverse. -/
  sign_mul_sign : ∀ i, sign i * sign i = 1
  /-- A monomial at a moved pixel is the monomial that it comes from at the pixel. -/
  entry_eq : ∀ q i, (designTable K k w).entry (w.pixelEquiv (place q)) (term i) =
    sign i * (designTable K k w).entry (w.pixelEquiv q) i

namespace WindowSymmetry

variable {k : Order} {w : Window} (S : WindowSymmetry K k w)

/-- Where a pixel, counted row by row, is moved. -/
def pixel : Equiv.Perm (Fin w.area) := w.pixelEquiv.permCongr S.place

theorem pixel_apply (q : Fin w.side × Fin w.side) :
    S.pixel (w.pixelEquiv q) = w.pixelEquiv (S.place q) := by
  rw [pixel, Equiv.permCongr_apply, Equiv.symm_apply_apply]

theorem diagonal_mul_diagonal : diagonal S.sign * diagonal S.sign = 1 := by
  rw [Matrix.diagonal_mul_diagonal, ← diagonal_one]
  exact congrArg diagonal (funext S.sign_mul_sign)

theorem submatrix_design :
    (designTable K k w).toMatrix.submatrix S.pixel S.term =
      (designTable K k w).toMatrix * diagonal S.sign := by
  ext p i
  obtain ⟨q, rfl⟩ := w.pixelEquiv.surjective p
  rw [mul_diagonal, submatrix_apply, S.pixel_apply, mul_comm]
  exact S.entry_eq q i

/-- An operator whose rows are exchanged and change their signs, read at the moved pixels. -/
def moved (X : Table K k.terms w.area) : Table K k.terms w.area :=
  Table.ofFn fun i p => S.sign i * X.entry (S.term i) (S.pixel p)

theorem toMatrix_moved (X : Table K k.terms w.area) :
    (S.moved X).toMatrix = diagonal S.sign * X.toMatrix.submatrix S.term S.pixel := by
  ext i p
  rw [diagonal_mul, submatrix_apply]
  exact Table.entry_ofFn _ i p

/-- The moved pseudo-inverse is a pseudo-inverse of the same matrix. -/
theorem isPseudoInverse_moved {X : Table K k.terms w.area}
    (hX : IsPseudoInverse (designTable K k w) X) :
    IsPseudoInverse (designTable K k w) (S.moved X) := by
  set A := (designTable K k w).toMatrix
  set B := X.toMatrix
  set D := diagonal S.sign
  have hD : D * D = 1 := S.diagonal_mul_diagonal
  have hmoved : (S.moved X).toMatrix = D * B.submatrix S.term S.pixel := S.toMatrix_moved X
  have hsub : A.submatrix S.pixel S.term = A * D := S.submatrix_design
  have hleft : A * (S.moved X).toMatrix = (A * B).submatrix S.pixel S.pixel := by
    rw [hmoved, ← Matrix.mul_assoc, ← hsub, submatrix_mul_equiv]
  have hright : (S.moved X).toMatrix * A = D * (B * A).submatrix S.term S.term * D := by
    rw [hmoved, ← submatrix_mul_equiv B A S.term S.pixel S.term, hsub]
    simp only [Matrix.mul_assoc, hD, Matrix.mul_one]
  refine ⟨?_, ?_, ?_, ?_⟩
  · calc A * (S.moved X).toMatrix * A
        = (A * B).submatrix S.pixel S.pixel * (A.submatrix S.pixel S.term * D) := by
          rw [hleft, hsub, Matrix.mul_assoc A, hD, Matrix.mul_one]
      _ = (A * B * A).submatrix S.pixel S.term * D := by
          rw [← Matrix.mul_assoc, submatrix_mul_equiv]
      _ = A := by rw [hX.outer, hsub, Matrix.mul_assoc, hD, Matrix.mul_one]
  · calc (S.moved X).toMatrix * A * (S.moved X).toMatrix
        = D * (B.submatrix S.term S.pixel * (A * B).submatrix S.pixel S.pixel) := by
          rw [Matrix.mul_assoc, hleft, hmoved, Matrix.mul_assoc]
      _ = D * (B * (A * B)).submatrix S.term S.pixel := by rw [submatrix_mul_equiv]
      _ = (S.moved X).toMatrix := by rw [← Matrix.mul_assoc, hX.inner, hmoved]
  · rw [hleft, transpose_submatrix, hX.symm_left]
  · rw [hright, transpose_mul, transpose_mul, transpose_submatrix, hX.symm_right,
      diagonal_transpose, Matrix.mul_assoc]

/-- **The rows of the pseudo-inverse have the symmetries of the window.** -/
theorem entry_moved {X : Table K k.terms w.area} (hX : IsPseudoInverse (designTable K k w) X)
    (i : Fin k.terms) (q : Fin w.side × Fin w.side) :
    X.entry (S.term i) (w.pixelEquiv (S.place q)) = S.sign i * X.entry i (w.pixelEquiv q) := by
  have hentry : S.sign i * X.entry (S.term i) (S.pixel (w.pixelEquiv q)) =
      X.entry i (w.pixelEquiv q) := by
    rw [← Table.entry_ofFn (fun i p => S.sign i * X.entry (S.term i) (S.pixel p)) i]
    exact congrFun (congrFun ((S.isPseudoInverse_moved hX).unique hX) i) _
  rw [← hentry, ← mul_assoc, S.sign_mul_sign, one_mul, S.pixel_apply]

/-- The coefficients of a window that is moved are those of the window itself, exchanged and with
other signs. -/
theorem windowSum_moved {X : Table K k.terms w.area} (hX : IsPseudoInverse (designTable K k w) X)
    {image other : Raster K} {top left top' left' : Nat}
    (hpixel : ∀ q : Fin w.side × Fin w.side,
      other.pixel (top' + (S.place q).1) (left' + (S.place q).2) =
        image.pixel (top + q.1) (left + q.2)) (i : Fin k.terms) :
    other.windowSum w (X.get (S.term i)) top' left' =
      S.sign i * image.windowSum w (X.get i) top left := by
  have hsum (J : Raster K) (j : Fin k.terms) (t l : Nat) : J.windowSum w (X.get j) t l =
      ∑ q : Fin w.side × Fin w.side,
        X.entry j (w.pixelEquiv q) * J.pixel (t + q.1) (l + q.2) := by
    rw [Fintype.sum_prod_type]
    simp only [Window.pixelEquiv_apply]
    rfl
  rw [hsum, hsum, ← Equiv.sum_comp S.place, Finset.mul_sum]
  refine Finset.sum_congr rfl fun q _ => ?_
  rw [S.entry_moved hX, hpixel, mul_assoc]

end WindowSymmetry

/-! ## Transposition and mirrors -/

/-- A monomial with the two variables exchanged. -/
def Monomial.swap (e : Monomial) : Monomial := ⟨e.y, e.x⟩

namespace Order

variable (k : Order)

theorem exists_swap (i : Fin k.terms) : ∃ j, k.monomials.get j = (k.monomials.get i).swap := by
  have hdegree := k.degree_le i
  refine exists_monomial ?_
  simp only [Monomial.swap]
  omega

/-- The exchange of the variables as an exchange of the monomials. -/
noncomputable def swapTerm : Equiv.Perm (Fin k.terms) :=
  Function.Involutive.toPerm (fun i => (k.exists_swap i).choose) fun i => by
    apply k.monomials_injective
    rw [(k.exists_swap _).choose_spec, (k.exists_swap i).choose_spec]
    rfl

theorem monomials_swapTerm (i : Fin k.terms) :
    k.monomials.get (k.swapTerm i) = (k.monomials.get i).swap := (k.exists_swap i).choose_spec

theorem swapTerm_swapTerm (i : Fin k.terms) : k.swapTerm (k.swapTerm i) = i := by
  apply k.monomials_injective
  rw [monomials_swapTerm, monomials_swapTerm]
  rfl

end Order

variable {k : Order} {w : Window}

/-- A monomial at the pixel in a row and a column of the window. -/
theorem entry_designTable_pixelEquiv (q : Fin w.side × Fin w.side) (i : Fin k.terms) :
    (designTable K k w).entry (w.pixelEquiv q) i =
      ((q.2.val : K) - w.margin) ^ (k.monomials.get i).x *
        ((q.1.val : K) - w.margin) ^ (k.monomials.get i).y := by
  obtain ⟨u, v⟩ := q
  rw [entry_designTable, Monomial.eval_cast, Window.offsetX, Window.offsetY,
    Window.pixelEquiv_apply, pixel_mod, pixel_div]
  push_cast
  rfl

/-- Counted from the other end, a pixel has the opposite offset from the centre. -/
theorem rev_sub_margin (v : Fin w.side) :
    ((v.rev.val : K) - w.margin) = -((v.val : K) - w.margin) := by
  have hsum : v.rev.val + v.val = 2 * w.margin := by
    have hv := v.isLt
    have hside : w.side = 2 * w.margin + 1 := rfl
    rw [Fin.val_rev]
    omega
  have hcast : ((v.rev.val + v.val : Nat) : K) = (2 * w.margin : Nat) := congrArg _ hsum
  push_cast at hcast
  linear_combination hcast

namespace WindowSymmetry

/-- Rows and columns exchanged. -/
noncomputable def transposition (K : Type) [Field K] (k : Order) (w : Window) :
    WindowSymmetry K k w where
  place := Equiv.prodComm _ _
  term := k.swapTerm
  sign _ := 1
  sign_mul_sign _ := one_mul 1
  entry_eq q i := by
    rw [entry_designTable_pixelEquiv, entry_designTable_pixelEquiv, k.monomials_swapTerm, one_mul]
    exact mul_comm _ _

/-- Columns counted from the other end. -/
def mirror (K : Type) [Field K] (k : Order) (w : Window) : WindowSymmetry K k w where
  place := Equiv.prodCongr (Equiv.refl _) Fin.revPerm
  term := Equiv.refl _
  sign i := (-1) ^ (k.monomials.get i).x
  sign_mul_sign i := by rw [← mul_pow, neg_one_mul, neg_neg, one_pow]
  entry_eq q i := by
    rw [entry_designTable_pixelEquiv, entry_designTable_pixelEquiv, ← mul_assoc, ← mul_pow,
      neg_one_mul, ← rev_sub_margin]
    rfl

/-- Rows counted from the other end. -/
def flip (K : Type) [Field K] (k : Order) (w : Window) : WindowSymmetry K k w where
  place := Equiv.prodCongr Fin.revPerm (Equiv.refl _)
  term := Equiv.refl _
  sign i := (-1) ^ (k.monomials.get i).y
  sign_mul_sign i := by rw [← mul_pow, neg_one_mul, neg_neg, one_pow]
  entry_eq q i := by
    rw [entry_designTable_pixelEquiv, entry_designTable_pixelEquiv, mul_left_comm, ← mul_pow,
      neg_one_mul, ← rev_sub_margin]
    rfl

end WindowSymmetry

/-! ## Images transposed and mirrored -/

namespace Raster

variable (image : Raster K)

/-- An image with rows and columns exchanged. -/
def transposed : Raster K := ⟨image.cols, image.rows, image.pixels.transpose⟩

/-- An image with its columns in the opposite order. -/
def mirrored : Raster K :=
  ⟨image.rows, image.cols, Table.ofFn fun r c => image.pixels.entry r c.rev⟩

/-- An image with its rows in the opposite order. -/
def flipped : Raster K :=
  ⟨image.rows, image.cols, Table.ofFn fun r c => image.pixels.entry r.rev c⟩

theorem pixel_of_outside {y x : Nat} (h : ¬(y < image.rows ∧ x < image.cols)) :
    image.pixel y x = 0 := dif_neg h

theorem transposed_pixel (y x : Nat) : image.transposed.pixel x y = image.pixel y x := by
  by_cases h : y < image.rows ∧ x < image.cols
  · have hpixel : image.transposed.pixel x y =
        image.pixels.transpose.entry ⟨x, h.2⟩ ⟨y, h.1⟩ := dif_pos h.symm
    rw [hpixel, Table.entry_transpose, pixel_eq h.1 h.2]
  · rw [image.pixel_of_outside h, image.transposed.pixel_of_outside fun hinside => h hinside.symm]

theorem mirrored_pixel (y : Nat) {x x' : Nat} (h : x + x' + 1 = image.cols) :
    image.mirrored.pixel y x' = image.pixel y x := by
  have hx : x < image.cols := by omega
  have hx' : x' < image.cols := by omega
  by_cases hy : y < image.rows
  · have hpixel : image.mirrored.pixel y x' =
        image.mirrored.pixels.entry ⟨y, hy⟩ ⟨x', hx'⟩ := dif_pos ⟨hy, hx'⟩
    have hrev : (⟨x', hx'⟩ : Fin image.cols).rev = ⟨x, hx⟩ := by
      ext
      rw [Fin.val_rev]
      dsimp only
      omega
    rw [hpixel, pixel_eq hy hx, ← hrev]
    exact Table.entry_ofFn _ _ _
  · rw [image.pixel_of_outside fun hinside => hy hinside.1,
      image.mirrored.pixel_of_outside fun hinside => hy hinside.1]

omit [Field K] in
theorem flipped_eq : image.flipped = image.transposed.mirrored.transposed := by
  refine congrArg (Raster.mk image.rows image.cols) (Table.ext_entry fun r c => ?_)
  simp [transposed, mirrored]

theorem flipped_pixel {y y' : Nat} (x : Nat) (h : y + y' + 1 = image.rows) :
    image.flipped.pixel y' x = image.pixel y x := by
  rw [flipped_eq, transposed_pixel, image.transposed.mirrored_pixel x h, transposed_pixel]

end Raster

/-- If the windows end where the image ends, the windows from the end are those from the beginning
in the opposite order. -/
theorem rev_mul_step {size : Nat} {d : Stride} (hside : w.side ≤ size)
    (hstep : d.step ∣ size - w.side) (c : Fin (windowCount size w d)) :
    c * d.step + c.rev * d.step + w.side = size := by
  obtain ⟨q, hq⟩ := hstep
  have hcount : windowCount size w d = q + 1 := by
    refine eq_of_forall_lt_iff fun r => ?_
    have hplaces : r * d.step ≤ q * d.step ↔ r ≤ q := Nat.mul_le_mul_right_iff d.one_le
    rw [lt_windowCount_iff, Nat.lt_succ_iff, ← hplaces, Nat.mul_comm q, ← hq]
    omega
  have hsum : c.val + c.rev.val = q := by
    have hc := c.isLt
    rw [Fin.val_rev]
    omega
  rw [← Nat.add_mul, hsum, Nat.mul_comm, ← hq]
  omega

/-! ## The coefficients of moved images -/

section Coefficients

variable {X : Table K k.terms w.area} (hX : IsPseudoInverse (designTable K k w) X) (d : Stride)
  (image : Raster K) (r : Fin (windowCount image.rows w d)) (c : Fin (windowCount image.cols w d))
  (i : Fin k.terms)

include hX

theorem windowSums_transposed :
    image.transposed.windowSums w d X c r i = image.windowSums w d X r c (k.swapTerm i) := by
  have hsum := (WindowSymmetry.transposition K k w).windowSum_moved hX
    (fun q => image.transposed_pixel (r * d.step + q.1) (c * d.step + q.2)) (k.swapTerm i)
  have hback : (WindowSymmetry.transposition K k w).term (k.swapTerm i) = i := k.swapTerm_swapTerm i
  rw [hback] at hsum
  exact hsum.trans (one_mul _)

theorem windowSums_mirrored (hside : w.side ≤ image.cols) (hstep : d.step ∣ image.cols - w.side) :
    image.mirrored.windowSums w d X r c i =
      (-1) ^ (k.monomials.get i).x * image.windowSums w d X r c.rev i := by
  have hends := rev_mul_step hside hstep c
  refine (WindowSymmetry.mirror K k w).windowSum_moved hX (fun q => ?_) i
  refine image.mirrored_pixel _ ?_
  have hrev := Fin.val_rev q.2
  have hq := q.2.isLt
  show c.rev * d.step + q.2 + (c * d.step + q.2.rev) + 1 = image.cols
  omega

theorem windowSums_flipped (hside : w.side ≤ image.rows) (hstep : d.step ∣ image.rows - w.side) :
    image.flipped.windowSums w d X r c i =
      (-1) ^ (k.monomials.get i).y * image.windowSums w d X r.rev c i := by
  have hends := rev_mul_step hside hstep r
  refine (WindowSymmetry.flip K k w).windowSum_moved hX (fun q => ?_) i
  refine image.flipped_pixel _ ?_
  have hrev := Fin.val_rev q.1
  have hq := q.1.isLt
  show r.rev * d.step + q.1 + (r * d.step + q.1.rev) + 1 = image.rows
  omega

end Coefficients

/-! ## The descriptors of moved images -/

/-- The monomial of a component of a descriptor. -/
def Order.component (k : Order) (i : Fin k.dimensions) : Monomial :=
  k.monomials.get ⟨i.val + 1, succ_lt_of_pred i⟩

theorem Order.exists_component_swap (k : Order) (i : Fin k.dimensions) :
    ∃ j, k.component j = (k.component i).swap := by
  obtain ⟨j, hj⟩ := k.exists_swap ⟨i.val + 1, succ_lt_of_pred i⟩
  have hpos : j.val ≠ 0 := by
    intro hzero
    -- only the constant monomial becomes the constant one
    obtain rfl : j = ⟨0, termCount_pos _⟩ := Fin.ext hzero
    rcases hmonomial : k.monomials.get ⟨i.val + 1, succ_lt_of_pred i⟩ with ⟨a, b⟩
    rw [k.monomials_zero, hmonomial, Monomial.swap, Monomial.mk.injEq] at hj
    obtain ⟨rfl, rfl⟩ := hj
    have hfirst := k.monomials_injective (hmonomial.trans k.monomials_zero.symm)
    exact Nat.succ_ne_zero _ (congrArg Fin.val hfirst)
  have hlt : j.val - 1 < k.dimensions := by
    have := j.isLt
    unfold Order.dimensions
    omega
  refine ⟨⟨j.val - 1, hlt⟩, ?_⟩
  have hindex : (⟨j.val - 1 + 1, succ_lt_of_pred ⟨j.val - 1, hlt⟩⟩ : Fin k.terms) = j := by
    ext
    dsimp only
    omega
  rw [Order.component, hindex, hj]
  rfl

variable [LinearOrder K]

theorem Exact.number_mul_div (s x y : K) :
    number (s * x) / number y = number s * (number x / number y) := by
  rw [number_div, number_div]
  by_cases hy : y = 0
  · rw [if_pos hy, if_pos hy]
    rfl
  · rw [if_neg hy, if_neg hy, number_mul, mul_div_assoc]

theorem Exact.number_one_mul (x : Exact K) : number 1 * x = x := by
  cases x with
  | number x => rw [number_mul, one_mul]
  | undefined => rfl

/-- The descriptors of an image whose coefficients are given, monomial by monomial and up to a sign
that the constant one does not have. -/
theorem extract_of_coefficients (b : Backend) (d : Stride) {X : Table K k.terms w.area}
    {image : ArrayLike (Exact K)} {I : Raster K} (himage : image.intensity = .ok I.numbers)
    (sign : Monomial → K) (hsign : sign ⟨0, 0⟩ = 1)
    (C : Fin (windowCount I.rows w d) → Fin (windowCount I.cols w d) → Monomial → K)
    (hC : ∀ r c i, I.windowSums w d X r c i =
      sign (k.monomials.get i) * C r c (k.monomials.get i)) :
    extract b image ⟨k.terms, w.area, X.numbers⟩ w d =
      .ok (Grid.ofFn _ _ k.dimensions fun r c i =>
        .number (sign (k.component i)) *
          (.number (C r c (k.component i)) / .number (C r c ⟨0, 0⟩))) := by
  refine (extract_numbers b w d X (termCount_pos _) himage).trans ?_
  refine congrArg Except.ok (Grid.ofFn_congr rfl rfl fun r c i => ?_)
  have hconstant := hC r c ⟨0, termCount_pos _⟩
  rw [k.monomials_zero, hsign, one_mul] at hconstant
  exact (congrArg₂ (fun x y => Exact.number x / Exact.number y) (hC r c _) hconstant).trans
    (Exact.number_mul_div _ _ _)

/-- **The descriptors have the symmetries of the window.** Let the operator be the pseudo-inverse of
the design matrix, whether or not the window tells all monomials apart. Then with either backend the
components of a descriptor belong to monomials, so that the grid of the transposed image has the
same descriptors, rows and columns exchanged and each component at the monomial with exchanged
variables, which is that of a component again. If no pixels are left over at the end of the rows,
the grid of the mirrored image has the descriptors in the opposite order, and the components whose
monomials are odd along the rows change their signs. The same holds for the columns. -/
theorem extract_symmetries {k : Order} {w : Window} {X : Table K k.terms w.area}
    (hX : IsPseudoInverse (designTable K k w) X) (d : Stride) (b : Backend) {I : Raster K}
    {image : ArrayLike (Exact K)} (himage : image.intensity = .ok I.numbers) :
    let rows := windowCount I.rows w d
    let cols := windowCount I.cols w d
    let operator : StoredMatrix (Exact K) := ⟨k.terms, w.area, X.numbers⟩
    ∃ D : Fin rows → Fin cols → Monomial → Exact K,
      extract b image operator w d =
        .ok (Grid.ofFn rows cols k.dimensions fun r c i => D r c (k.component i)) ∧
      (∀ i, ∃ j, k.component j = (k.component i).swap) ∧
      (∀ transposed : ArrayLike (Exact K), transposed.intensity = .ok I.transposed.numbers →
        extract b transposed operator w d =
          .ok (Grid.ofFn cols rows k.dimensions fun c r i => D r c (k.component i).swap)) ∧
      (∀ mirrored : ArrayLike (Exact K), mirrored.intensity = .ok I.mirrored.numbers →
        w.side ≤ I.cols → d.step ∣ I.cols - w.side →
        extract b mirrored operator w d =
          .ok (Grid.ofFn rows cols k.dimensions fun r c i =>
            .number ((-1) ^ (k.component i).x) * D r c.rev (k.component i))) ∧
      (∀ flipped : ArrayLike (Exact K), flipped.intensity = .ok I.flipped.numbers →
        w.side ≤ I.rows → d.step ∣ I.rows - w.side →
        extract b flipped operator w d =
          .ok (Grid.ofFn rows cols k.dimensions fun r c i =>
            .number ((-1) ^ (k.component i).y) * D r.rev c (k.component i))) := by
  intro rows cols operator
  let C (r : Fin rows) (c : Fin cols) : Monomial → K :=
    Function.extend k.monomials.get (I.windowSums w d X r c) 0
  have hC (r : Fin rows) (c : Fin cols) (i : Fin k.terms) :
      C r c (k.monomials.get i) = I.windowSums w d X r c i :=
    k.monomials_injective.extend_apply _ _ i
  have htranspose (c : Fin cols) (r : Fin rows) (i : Fin k.terms) :
      I.transposed.windowSums w d X c r i = C r c (k.monomials.get i).swap := by
    rw [← k.monomials_swapTerm, hC]
    exact windowSums_transposed hX d I r c i
  refine ⟨fun r c e => .number (C r c e) / .number (C r c ⟨0, 0⟩), ?_, k.exists_component_swap,
    fun transposed htransposed => ?_, fun mirrored hmirrored hside hstep => ?_,
    fun flipped hflipped hside hstep => ?_⟩
  · refine (extract_of_coefficients b d himage 1 rfl C fun r c i => ?_).trans ?_
    · rw [hC]
      exact (one_mul _).symm
    · exact congrArg _ (Grid.ofFn_congr rfl rfl fun r c i => Exact.number_one_mul _)
  · refine (extract_of_coefficients b d htransposed 1 rfl (fun c r e => C r c e.swap)
      fun c r i => ?_).trans ?_
    · exact (htranspose c r i).trans (one_mul _).symm
    · exact congrArg _ (Grid.ofFn_congr rfl rfl fun c r i => Exact.number_one_mul _)
  · refine extract_of_coefficients b d hmirrored (fun e => (-1) ^ e.x) (pow_zero _)
      (fun r c => C r c.rev) fun r c i => ?_
    exact (windowSums_mirrored hX d I r c i hside hstep).trans (congrArg _ (hC r c.rev i).symm)
  · refine extract_of_coefficients b d hflipped (fun e => (-1) ^ e.y) (pow_zero _)
      (fun r c => C r.rev c) fun r c i => ?_
    exact (windowSums_flipped hX d I r c i hside hstep).trans (congrArg _ (hC r.rev c i).symm)

/-- An image of three rows and five columns under windows of three pixels on a side, two pixels
apart, for which polynomials of degree three have too many monomials. The last window lies around
the point in the second row and the fourth column, where the slope along the rows is two, shared
with the cube, and the brightness seven; it is the first window of the mirrored image. -/
theorem extract_symmetries_three_by_five :
    let k : Order := ⟨3, by decide, by decide⟩
    let w : Window := ⟨1, by decide⟩
    let d : Stride := ⟨2, by decide⟩
    let I : Raster ℚ := ⟨3, 5, Table.ofFn fun y x => (x.val : ℚ) * (y.val + 1) + 1⟩
    let image (J : Raster ℚ) : ArrayLike (Exact ℚ) :=
      .array (Samples.ofMatrix ⟨J.numbers.rows, J.numbers.cols, J.numbers.pixels⟩)
    (IsPseudoInverse (designTable ℚ k w) cubicOperator ∧
      (image I).intensity = .ok I.numbers ∧
      (image I.mirrored).intensity = .ok I.mirrored.numbers) ∧
    ∃ g : Grid (Exact ℚ),
      extract .windows (image I.mirrored) ⟨k.terms, w.area, cubicOperator.numbers⟩ w d = .ok g ∧
      g.shape = [1, 2, 9] ∧
      ∀ (r : Fin g.rows) (c : Fin g.cols) (i : Fin g.depth),
        r.val = 0 → c.val = 0 → i.val = 0 → g.entry r c i = .number (-1 / 7) := by
  intro k w d I image
  have hX : IsPseudoInverse (designTable ℚ k w) cubicOperator := isPseudoInverse_cubicOperator
  have hintensity (J : Raster ℚ) : (image J).intensity = .ok J.numbers :=
    ArrayLike.intensity_ofMatrix J.numbers
  obtain ⟨D, hD, -, -, hmirrored, -⟩ := extract_symmetries hX d .windows (hintensity I)
  have hg := hmirrored _ (hintensity _) (by decide) (by decide)
  let row : Fin (windowCount I.rows w d) := ⟨0, by decide⟩
  let last : Fin (windowCount I.cols w d) := ⟨1, by decide⟩
  have hlast : D row last (k.component ⟨0, by decide⟩) = .number (1 / 7) := by
    have hsame := hD.symm.trans
      (extract_numbers .windows w d cubicOperator (termCount_pos _) (hintensity I))
    refine (Grid.eq_of_ofFn_eq (Except.ok.inj hsame) _ _ _).trans ?_
    let c (i : Fin k.terms) : ℚ := I.windowSums w d cubicOperator row last i
    have hslope : c ⟨1, by decide⟩ = 1 := by decide +kernel
    have hmean : c ⟨0, by decide⟩ = 7 := by decide +kernel
    exact (congrArg₂ (fun x y => Exact.number x / Exact.number y) hslope hmean).trans
      (Exact.number_div_of_ne (by norm_num))
  have hshape : [windowCount I.rows w d, windowCount I.cols w d, k.dimensions] = [1, 2, 9] := by
    decide
  refine ⟨⟨hX, hintensity _, hintensity _⟩, _, hg, hshape, fun (r : Fin (windowCount I.rows w d))
    (c : Fin (windowCount I.cols w d)) (i : Fin k.dimensions) hr hc hi => ?_⟩
  obtain rfl : r = row := Fin.ext hr
  obtain rfl : c = ⟨0, by decide⟩ := Fin.ext hc
  obtain rfl : i = ⟨0, by decide⟩ := Fin.ext hi
  refine (Grid.entry_ofFn _ _ _ _).trans ?_
  have hcomponent : k.component ⟨0, by decide⟩ = ⟨1, 0⟩ := by decide
  have hrev : Fin.rev (⟨0, by decide⟩ : Fin (windowCount I.cols w d)) = last := by decide
  rw [hrev, hlast, hcomponent, Exact.number_mul]
  norm_num

end Facet
