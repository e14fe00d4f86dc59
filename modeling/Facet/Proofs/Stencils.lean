import Mathlib
import Facet.Proofs.SingularBounds

/-!
# Coefficients from the pixels around the centre

The coefficients of a polynomial can be found from the few pixels around the centre of a window
alone: along each axis from seven of them, or from all if there are fewer. Where there are fewer a
power of the offset that is too high equals a sum of lower ones at all offsets of the window, and
then the coefficients of these are found. So the matrix that finds coefficients in this way undoes
the design matrix on what that reaches, and its entries do not depend on the size of the window.
-/

namespace Facet

/-! ## One axis -/

/-- What a value at an offset from minus three to three contributes to a coefficient, in parts of
720, for a window that reaches as far as a given margin; one row for each power. -/
def stencilRows (margin : Nat) : List (List Int) :=
  match margin with
  | 1 => [[0, 0, 0, 720, 0, 0, 0], [0, 0, -360, 0, 360, 0, 0], [0, 0, 360, -720, 360, 0, 0]]
  | 2 => [[0, 0, 0, 720, 0, 0, 0], [0, 60, -480, 0, 480, -60, 0],
      [0, -30, 480, -900, 480, -30, 0], [0, -60, 120, 0, -120, 60, 0],
      [0, 30, -120, 180, -120, 30, 0]]
  | _ => [[0, 0, 0, 720, 0, 0, 0], [-12, 108, -540, 0, 540, -108, 12],
      [4, -54, 540, -980, 540, -54, 4], [15, -120, 195, 0, -195, 120, -15],
      [-5, 60, -195, 280, -195, 60, -5], [-3, 12, -15, 0, 15, -12, 3], [1, -6, 15, -20, 15, -6, 1]]

/-- What the value at an offset contributes to the coefficient of a power, in parts of 720. -/
def stencil (margin power : Nat) (x : Int) : Int :=
  if -3 ≤ x ∧ x ≤ 3 then ((stencilRows margin).getD power []).getD (x + 3).toNat 0 else 0

theorem stencil_of_three_le {margin : Nat} (h : 3 ≤ margin) : stencil margin = stencil 3 := by
  obtain ⟨n, rfl⟩ := Nat.exists_eq_add_of_le' h
  rfl

theorem stencil_of_outside {margin power : Nat} {x : Int} (h : x < -3 ∨ 3 < x) :
    stencil margin power x = 0 := by
  refine if_neg fun hinside => ?_
  omega

/-- A sum over the offsets of a window, if only those up to three count. -/
theorem sum_offsets {f : Int → Int} (hf : ∀ x, x < -3 ∨ 3 < x → f x = 0) {margin : Nat}
    (h : 3 ≤ margin) :
    ∑ v ∈ Finset.range (2 * margin + 1), f ((v : Int) - (margin : Int)) =
      ∑ v ∈ Finset.range 7, f ((v : Int) - 3) := by
  induction margin, h using Nat.le_induction with
  | base => rfl
  | succ margin h ih =>
    -- the two outermost offsets do not count
    have hlast : f (((2 * margin + 1 + 1 : Nat) : Int) - ((margin + 1 : Nat) : Int)) = 0 :=
      hf _ (.inr (by push_cast; omega))
    have hfirst : f (((0 : Nat) : Int) - ((margin + 1 : Nat) : Int)) = 0 :=
      hf _ (.inl (by push_cast; omega))
    rw [← ih, show 2 * (margin + 1) + 1 = 2 * margin + 1 + 1 + 1 by ring, Finset.sum_range_succ,
      Finset.sum_range_succ', hlast, hfirst, add_zero, add_zero]
    refine Finset.sum_congr rfl fun v _ => ?_
    congr 1
    push_cast
    ring

/-- What is found for the coefficient of one power from the values of another, in parts of 720. -/
def moment (margin a b : Nat) : Int :=
  ∑ v ∈ Finset.range (2 * margin + 1),
    stencil margin a ((v : Int) - (margin : Int)) * ((v : Int) - (margin : Int)) ^ b

/-- The sum of the squares of what values contribute to coefficients. -/
def stencilSquares (margin a : Nat) : Int :=
  ∑ v ∈ Finset.range (2 * margin + 1), stencil margin a ((v : Int) - (margin : Int)) ^ 2

theorem moment_of_three_le {margin : Nat} (h : 3 ≤ margin) (a b : Nat) :
    moment margin a b = moment 3 a b := by
  unfold moment
  rw [stencil_of_three_le h]
  refine sum_offsets (f := fun x => stencil 3 a x * x ^ b) (fun x hx => ?_) h
  rw [stencil_of_outside hx, zero_mul]

theorem stencilSquares_of_three_le {margin : Nat} (h : 3 ≤ margin) (a : Nat) :
    stencilSquares margin a = stencilSquares 3 a := by
  unfold stencilSquares
  rw [stencil_of_three_le h]
  refine sum_offsets (f := fun x => stencil 3 a x ^ 2) (fun x hx => ?_) h
  rw [stencil_of_outside hx, zero_pow two_ne_zero]

theorem moment_three {a b : Nat} (ha : a < 7) (hb : b < 7) :
    moment 3 a b = if a = b then 720 else 0 := by
  have h : ∀ a < 7, ∀ b < 7, moment 3 a b = if a = b then 720 else 0 := by decide +kernel
  exact h a ha b hb

/-- The coefficient of a power is found if the window has more offsets than the power says. -/
theorem moment_self {margin a : Nat} (hm : 1 ≤ margin) (ha : a < 7) :
    moment margin a a = if a < 2 * margin + 1 then 720 else 0 := by
  rcases Nat.lt_or_ge margin 3 with hsmall | hlarge
  · have hall : ∀ margin < 3, 1 ≤ margin → ∀ a < 7,
        moment margin a a = if a < 2 * margin + 1 then 720 else 0 := by
      decide +kernel
    exact hall margin hsmall hm a ha
  · have hfits : a < 2 * margin + 1 := by omega
    rw [moment_of_three_le hlarge, moment_three ha ha, if_pos rfl, if_pos hfits]

/-- Nothing is found for the coefficient of a higher power. -/
theorem moment_of_lt {margin a b : Nat} (hm : 1 ≤ margin) (ha : a < 7) (h : b < a) :
    moment margin a b = 0 := by
  rcases Nat.lt_or_ge margin 3 with hsmall | hlarge
  · have hall : ∀ margin < 3, 1 ≤ margin → ∀ a < 7, ∀ b < a, moment margin a b = 0 := by
      decide +kernel
    exact hall margin hsmall hm a ha b h
  · rw [moment_of_three_le hlarge, moment_three ha (h.trans ha), if_neg h.ne']

/-- At the offsets of a window the power is the sum of what is found. -/
theorem sum_moment {margin b v : Nat} (hm : 1 ≤ margin) (hb : b < 7) (hv : v < 2 * margin + 1) :
    ∑ a ∈ Finset.range 7, ((v : Int) - (margin : Int)) ^ a * moment margin a b =
      720 * ((v : Int) - (margin : Int)) ^ b := by
  rcases Nat.lt_or_ge margin 3 with hsmall | hlarge
  · have hall : ∀ margin : Nat, margin < 3 → 1 ≤ margin → ∀ b < 7, ∀ v < 2 * margin + 1,
        ∑ a ∈ Finset.range 7, ((v : Int) - (margin : Int)) ^ a * moment margin a b =
          720 * ((v : Int) - (margin : Int)) ^ b := by
      decide +kernel
    exact hall margin hsmall hm b hb v hv
  · rw [Finset.sum_eq_single b]
    · rw [moment_of_three_le hlarge, moment_three hb hb, if_pos rfl, mul_comm]
    · intro a ha hab
      rw [moment_of_three_le hlarge, moment_three (Finset.mem_range.1 ha) hb, if_neg hab, mul_zero]
    · intro hout
      exact absurd (Finset.mem_range.2 hb) hout

theorem sum_stencilSquares_le {margin : Nat} (hm : 1 ≤ margin) :
    ∑ a ∈ Finset.range 7, stencilSquares margin a ≤ 6 * 720 ^ 2 := by
  rcases Nat.lt_or_ge margin 3 with hsmall | hlarge
  · have hall : ∀ margin < 3, 1 ≤ margin →
        ∑ a ∈ Finset.range 7, stencilSquares margin a ≤ 6 * 720 ^ 2 := by
      decide +kernel
    exact hall margin hsmall hm
  · simp only [stencilSquares_of_three_le hlarge]
    decide +kernel

theorem stencilSquares_nonneg (margin a : Nat) : 0 ≤ stencilSquares margin a :=
  Finset.sum_nonneg fun _ _ => sq_nonneg _

/-! ## Both axes -/

/-- Summing over the monomials of a fit is summing over all pairs of powers up to its degree. -/
theorem Order.sum_powers {M : Type} [AddCommMonoid M] (k : Order) (f : Nat → Nat → M) :
    ∑ i, f (k.monomials.get i).x (k.monomials.get i).y =
      ∑ q ∈ (Finset.range 7 ×ˢ Finset.range 7).filter fun q => q.1 + q.2 ≤ k.degree,
        f q.1 q.2 := by
  have hdegree := k.le_six
  rw [k.sum_monomials fun e => f e.x e.y]
  refine Finset.sum_nbij' (fun e => (e.x, e.y)) (fun q => ⟨q.1, q.2⟩) ?_ ?_ ?_ ?_ ?_
  · intro e he
    have hle := Monomial.mem_upTo.1 (List.mem_toFinset.1 he)
    rw [Finset.mem_filter, Finset.mem_product, Finset.mem_range, Finset.mem_range]
    dsimp only
    omega
  · intro q hq
    exact List.mem_toFinset.2 (Monomial.mem_upTo.2 (Finset.mem_filter.1 hq).2)
  · intro e _
    rfl
  · intro q _
    rfl
  · intro e _
    rfl

/-- A sum over the pixels of a window of a product, one factor for each axis. -/
theorem sum_pixels_mul (w : Window) (f g : Int → Int) :
    ∑ p : Fin w.area, f (w.offsetX p) * g (w.offsetY p) =
      (∑ v ∈ Finset.range (2 * w.margin + 1), f ((v : Int) - (w.margin : Int))) *
        ∑ u ∈ Finset.range (2 * w.margin + 1), g ((u : Int) - (w.margin : Int)) := by
  rw [sum_pixels, Finset.sum_comm, Finset.sum_range, Finset.sum_range, Finset.sum_mul_sum]
  refine Finset.sum_congr rfl fun v _ => Finset.sum_congr rfl fun u _ => ?_
  rw [Window.offsetX, Window.offsetY, pixel_mod, pixel_div]

/-- What the value at a pixel contributes to the coefficient of a monomial, in parts of the square
of 720. -/
def Window.weight (w : Window) (e : Monomial) (p : Nat) : Int :=
  stencil w.margin e.x (w.offsetX p) * stencil w.margin e.y (w.offsetY p)

theorem Window.sum_weight_mul_eval (w : Window) (e f : Monomial) :
    ∑ p : Fin w.area, w.weight e p * f.eval (w.offsetX p) (w.offsetY p) =
      moment w.margin e.x f.x * moment w.margin e.y f.y := by
  unfold moment
  rw [← sum_pixels_mul w (fun x => stencil w.margin e.x x * x ^ f.x)
    fun y => stencil w.margin e.y y * y ^ f.y]
  refine Finset.sum_congr rfl fun p _ => ?_
  have heval : f.eval (w.offsetX p) (w.offsetY p) = w.offsetX p ^ f.x * w.offsetY p ^ f.y := rfl
  rw [weight, heval]
  ring

theorem Window.sum_sq_weight (w : Window) (e : Monomial) :
    ∑ p : Fin w.area, w.weight e p ^ 2 =
      stencilSquares w.margin e.x * stencilSquares w.margin e.y := by
  unfold stencilSquares
  rw [← sum_pixels_mul w (fun x => stencil w.margin e.x x ^ 2)
    fun y => stencil w.margin e.y y ^ 2]
  refine Finset.sum_congr rfl fun p _ => ?_
  rw [weight, mul_pow]

/-- The monomials with the coefficients that are found for a monomial are equal to it at all pixels
of the window. -/
theorem Window.sum_eval_mul_moment (w : Window) {k : Order} {f : Monomial}
    (hf : f.x + f.y ≤ k.degree) (q : Fin w.area) :
    ∑ i, (k.monomials.get i).eval (w.offsetX q) (w.offsetY q) *
        (moment w.margin (k.monomials.get i).x f.x * moment w.margin (k.monomials.get i).y f.y) =
      720 ^ 2 * f.eval (w.offsetX q) (w.offsetY q) := by
  have hdegree := k.le_six
  have hcol : q.val % w.side < 2 * w.margin + 1 := Nat.mod_lt _ w.side_pos
  have hrow : q.val / w.side < 2 * w.margin + 1 := Nat.div_lt_of_lt_mul q.isLt
  have hx := sum_moment w.one_le (show f.x < 7 by omega) hcol
  have hy := sum_moment w.one_le (show f.y < 7 by omega) hrow
  rw [k.sum_powers fun a b => (⟨a, b⟩ : Monomial).eval (w.offsetX q) (w.offsetY q) *
    (moment w.margin a f.x * moment w.margin b f.y), Finset.sum_filter_of_ne]
  · calc ∑ r ∈ Finset.range 7 ×ˢ Finset.range 7,
          (⟨r.1, r.2⟩ : Monomial).eval (w.offsetX q) (w.offsetY q) *
            (moment w.margin r.1 f.x * moment w.margin r.2 f.y)
        = ∑ r ∈ Finset.range 7 ×ˢ Finset.range 7, w.offsetX q ^ r.1 * moment w.margin r.1 f.x *
            (w.offsetY q ^ r.2 * moment w.margin r.2 f.y) := by
          refine Finset.sum_congr rfl fun r _ => ?_
          have heval : (⟨r.1, r.2⟩ : Monomial).eval (w.offsetX q) (w.offsetY q) =
              w.offsetX q ^ r.1 * w.offsetY q ^ r.2 := rfl
          rw [heval]
          ring
      _ = (720 * w.offsetX q ^ f.x) * (720 * w.offsetY q ^ f.y) := by
          rw [Finset.sum_product]
          exact (Finset.sum_mul_sum ..).symm.trans (congrArg₂ (· * ·) hx hy)
      _ = 720 ^ 2 * (w.offsetX q ^ f.x * w.offsetY q ^ f.y) := by ring
  · -- nothing is found for monomials beyond the degree
    intro r hr hne
    rw [Finset.mem_product, Finset.mem_range, Finset.mem_range] at hr
    by_contra hbeyond
    apply hne
    by_cases hrx : f.x < r.1
    · rw [moment_of_lt w.one_le hr.1 hrx, zero_mul, mul_zero]
    · rw [moment_of_lt w.one_le hr.2 (show f.y < r.2 by omega), mul_zero, mul_zero]

theorem Window.sum_sq_weights_le (w : Window) (k : Order) :
    ∑ i, ∑ p : Fin w.area, w.weight (k.monomials.get i) p ^ 2 ≤ (6 * 720 ^ 2) ^ 2 := by
  calc ∑ i, ∑ p : Fin w.area, w.weight (k.monomials.get i) p ^ 2
      = ∑ i, stencilSquares w.margin (k.monomials.get i).x *
          stencilSquares w.margin (k.monomials.get i).y := by
        refine Finset.sum_congr rfl fun i _ => w.sum_sq_weight _
    _ ≤ ∑ q ∈ Finset.range 7 ×ˢ Finset.range 7,
          stencilSquares w.margin q.1 * stencilSquares w.margin q.2 := by
        rw [k.sum_powers fun a b => stencilSquares w.margin a * stencilSquares w.margin b]
        refine Finset.sum_le_sum_of_subset_of_nonneg (Finset.filter_subset _ _) fun q _ _ => ?_
        exact mul_nonneg (stencilSquares_nonneg _ _) (stencilSquares_nonneg _ _)
    _ = (∑ a ∈ Finset.range 7, stencilSquares w.margin a) ^ 2 := by
        rw [sq, Finset.sum_mul_sum, Finset.sum_product]
    _ ≤ (6 * 720 ^ 2) ^ 2 := by
        refine pow_le_pow_left₀ ?_ (sum_stencilSquares_le w.one_le) 2
        exact Finset.sum_nonneg fun a _ => stencilSquares_nonneg _ a

/-! ## A matrix that undoes the design matrix -/

variable {K : Type} [Field K]

/-- Finds coefficients from the pixels around the centre. -/
def recoveryTable (K : Type) [Field K] (k : Order) (w : Window) : Table K k.terms w.area :=
  Table.ofFn fun i p => (w.weight (k.monomials.get i) p : K) / 720 ^ 2

/-- What is found for the coefficient of one monomial from the values of another. -/
theorem recoveryTable_mul_designTable (k : Order) (w : Window) (i j : Fin k.terms) :
    ((recoveryTable K k w).toMatrix * (designTable K k w).toMatrix) i j =
      ((moment w.margin (k.monomials.get i).x (k.monomials.get j).x *
        moment w.margin (k.monomials.get i).y (k.monomials.get j).y : Int) : K) / 720 ^ 2 := by
  rw [Matrix.mul_apply, ← w.sum_weight_mul_eval, Int.cast_sum, Finset.sum_div]
  refine Finset.sum_congr rfl fun p _ => ?_
  rw [Table.toMatrix_apply, Table.toMatrix_apply, entry_designTable, recoveryTable,
    Table.entry_ofFn, Int.cast_mul]
  ring

/-- **What the design matrix reaches is recovered from the pixels around the centre.** -/
theorem designTable_mul_recoveryTable [CharZero K] (k : Order) (w : Window) :
    (designTable K k w).toMatrix * (recoveryTable K k w).toMatrix * (designTable K k w).toMatrix =
      (designTable K k w).toMatrix := by
  have hne : (720 ^ 2 : K) ≠ 0 := by norm_num
  ext q j
  rw [Matrix.mul_assoc, Matrix.mul_apply]
  calc ∑ i, (designTable K k w).toMatrix q i *
        ((recoveryTable K k w).toMatrix * (designTable K k w).toMatrix) i j
      = ((∑ i, (k.monomials.get i).eval (w.offsetX q) (w.offsetY q) *
          (moment w.margin (k.monomials.get i).x (k.monomials.get j).x *
            moment w.margin (k.monomials.get i).y (k.monomials.get j).y) : Int) : K) / 720 ^ 2 := by
        rw [Int.cast_sum, Finset.sum_div]
        refine Finset.sum_congr rfl fun i _ => ?_
        rw [recoveryTable_mul_designTable, Table.toMatrix_apply, entry_designTable,
          ← mul_div_assoc, ← Int.cast_mul]
    _ = (designTable K k w).toMatrix q j := by
        rw [w.sum_eval_mul_moment (k.degree_le j), Table.toMatrix_apply, entry_designTable,
          Int.cast_mul, Int.cast_pow, Int.cast_ofNat, mul_div_cancel_left₀ _ hne]

variable [LinearOrder K] [IsStrictOrderedRing K]

theorem squares_recoveryTable_le (k : Order) (w : Window) : (recoveryTable K k w).squares ≤ 36 := by
  have hcast : (recoveryTable K k w).squares =
      ((∑ i, ∑ p : Fin w.area, w.weight (k.monomials.get i) p ^ 2 : Int) : K) / 720 ^ 4 := by
    unfold Table.squares
    rw [Int.cast_sum, Finset.sum_div]
    refine Finset.sum_congr rfl fun i _ => ?_
    rw [Int.cast_sum, Finset.sum_div]
    refine Finset.sum_congr rfl fun p _ => ?_
    rw [recoveryTable, Table.entry_ofFn, div_pow, Int.cast_pow]
    norm_num
  have hle : ((∑ i, ∑ p : Fin w.area, w.weight (k.monomials.get i) p ^ 2 : Int) : K) ≤
      (6 * 720 ^ 2) ^ 2 := by
    exact_mod_cast w.sum_sq_weights_le k
  rw [hcast, div_le_iff₀ (by positivity)]
  refine hle.trans_eq ?_
  norm_num

end Facet
