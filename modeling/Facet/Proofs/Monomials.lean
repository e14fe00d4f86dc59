import Mathlib
import Facet.Fit.Design

/-!
# Taylor expansion over a window

A polynomial in the column and the row of a pixel is expanded around the centre of a window. Its
Taylor coefficients belong to the monomials of the fit, and a polynomial of degree at most `k` is
the sum of its coefficients times these monomials in the offsets from the centre. Both sides are
linear in the polynomial, so it is enough to expand single powers, where the two sides are products
of two binomial sums.
-/

namespace Facet

/-! ## The monomials of a fit -/

namespace Monomial

theorem mem_upTo {k : Nat} {e : Monomial} : e ∈ upTo k ↔ e.x + e.y ≤ k := by
  simp only [upTo, ofDegree, List.mem_flatMap, List.mem_range, List.mem_map]
  constructor
  · rintro ⟨n, hn, y, hy, rfl⟩
    dsimp only
    omega
  · intro h
    refine ⟨e.x + e.y, by omega, e.y, by omega, ?_⟩
    rw [Nat.add_sub_cancel]

theorem nodup_ofDegree (n : Nat) : (ofDegree n).Nodup := by
  refine List.nodup_range.map ?_
  rintro y y' h
  exact congrArg Monomial.y h

theorem degree_of_mem_ofDegree {n : Nat} {e : Monomial} (h : e ∈ ofDegree n) : e.x + e.y = n := by
  simp only [ofDegree, List.mem_map, List.mem_range] at h
  obtain ⟨y, hy, rfl⟩ := h
  dsimp only
  omega

theorem nodup_upTo (k : Nat) : (upTo k).Nodup := by
  refine List.nodup_flatMap.2 ⟨fun n _ => nodup_ofDegree n, ?_⟩
  refine List.nodup_range.imp fun {m n} hmn => ?_
  rintro e hm hn
  exact hmn ((degree_of_mem_ofDegree hm).symm.trans (degree_of_mem_ofDegree hn))

theorem eval_cast {K : Type} [Field K] (e : Monomial) (x y : Int) :
    ((e.eval x y : Int) : K) = (x : K) ^ e.x * (y : K) ^ e.y := by
  have hpow (b : Int) (n : Nat) : Int.pow b n = b ^ n := rfl
  rw [eval, hpow, hpow]
  push_cast
  rfl

theorem eval_constant (x y : Int) : eval ⟨0, 0⟩ x y = 1 := by
  show x ^ 0 * y ^ 0 = 1
  rw [pow_zero, pow_zero, one_mul]

end Monomial

namespace Order

theorem toList_monomials (k : Order) : k.monomials.toList = Monomial.upTo k.degree := rfl

/-- The monomial of a coefficient is that at its place in the list of all. -/
theorem getElem?_upTo (k : Order) (i : Fin k.terms) :
    (Monomial.upTo k.degree)[i.val]? = some (k.monomials.get i) := by
  rw [← toList_monomials]
  simp

theorem monomials_injective (k : Order) : Function.Injective k.monomials.get := by
  intro i j hij
  have hnodup := Monomial.nodup_upTo k.degree
  have hi := k.getElem?_upTo i
  have hj := k.getElem?_upTo j
  rw [← hij] at hj
  have hlength : i.val < (Monomial.upTo k.degree).length := by
    rw [Monomial.length_upTo]
    exact i.isLt
  exact Fin.ext ((List.getElem?_inj hlength hnodup).1 (hi.trans hj.symm))

theorem degree_le (k : Order) (i : Fin k.terms) :
    (k.monomials.get i).x + (k.monomials.get i).y ≤ k.degree :=
  Monomial.mem_upTo.1 (List.mem_of_getElem? (k.getElem?_upTo i))

theorem exists_monomial {k : Order} {e : Monomial} (he : e.x + e.y ≤ k.degree) :
    ∃ i, k.monomials.get i = e := by
  obtain ⟨i, hi, hget⟩ := List.getElem_of_mem (Monomial.mem_upTo.2 he)
  have hlt : i < k.terms := by
    rw [Monomial.length_upTo] at hi
    exact hi
  refine ⟨⟨i, hlt⟩, Option.some.inj ?_⟩
  rw [← k.getElem?_upTo, List.getElem?_eq_getElem hi, hget]

theorem sum_monomials {K : Type} [AddCommMonoid K] (k : Order) (f : Monomial → K) :
    ∑ i, f (k.monomials.get i) = ∑ e ∈ (Monomial.upTo k.degree).toFinset, f e := by
  rw [List.sum_toFinset f (Monomial.nodup_upTo k.degree), ← toList_monomials, ← List.sum_ofFn]
  congr 1
  refine List.ext_getElem (by simp) fun i hi hi' => ?_
  simp

theorem monomials_zero (k : Order) : k.monomials.get ⟨0, termCount_pos _⟩ = ⟨0, 0⟩ := by
  have hfirst : (Monomial.upTo k.degree)[0]? = some ⟨0, 0⟩ := by
    rw [Monomial.upTo, List.range_succ_eq_map]
    rfl
  exact Option.some.inj ((k.getElem?_upTo ⟨0, termCount_pos _⟩).symm.trans hfirst)

/-- Every other monomial has a positive power. -/
theorem exists_power_ne_zero (k : Order) {i : Fin k.terms} (hi : i.val ≠ 0) :
    (k.monomials.get i).x ≠ 0 ∨ (k.monomials.get i).y ≠ 0 := by
  by_contra hconstant
  push Not at hconstant
  rcases hmonomial : k.monomials.get i with ⟨a, b⟩
  rw [hmonomial] at hconstant
  obtain ⟨rfl, rfl⟩ := hconstant
  have hfirst := hmonomial.trans k.monomials_zero.symm
  exact hi (congrArg Fin.val (k.monomials_injective hfirst))

end Order

/-! ## Taylor coefficients -/

section Taylor

open MvPolynomial

variable {K : Type} [Field K]

/-- The Taylor coefficient of a polynomial at a point: a partial derivative divided by the
factorials of how often it was taken along each axis. -/
noncomputable def taylorCoefficient (P : MvPolynomial (Fin 2) K) (e : Monomial) (x y : K) : K :=
  eval ![x, y] ((pderiv 0)^[e.x] ((pderiv 1)^[e.y] P)) / (e.x.factorial * e.y.factorial)

theorem taylorCoefficient_zero (e : Monomial) (x y : K) : taylorCoefficient 0 e x y = 0 := by
  simp [taylorCoefficient]

theorem taylorCoefficient_add (P Q : MvPolynomial (Fin 2) K) (e : Monomial) (x y : K) :
    taylorCoefficient (P + Q) e x y = taylorCoefficient P e x y + taylorCoefficient Q e x y := by
  simp only [taylorCoefficient, iterate_map_add, map_add, add_div]

theorem taylorCoefficient_constant (P : MvPolynomial (Fin 2) K) (x y : K) :
    taylorCoefficient P ⟨0, 0⟩ x y = eval ![x, y] P := by
  simp [taylorCoefficient]

theorem iterate_pderiv_monomial (i : Fin 2) (n : Nat) (s : Fin 2 →₀ Nat) (c : K) :
    (pderiv i)^[n] (monomial s c) =
      monomial (s - Finsupp.single i n) (c * (s i).descFactorial n) := by
  induction n with
  | zero => simp
  | succ n ih =>
    rw [Function.iterate_succ_apply', ih, pderiv_monomial, Nat.descFactorial_succ, tsub_tsub,
      ← Finsupp.single_add]
    congr 1
    simp only [Finsupp.coe_tsub, Pi.sub_apply, Finsupp.single_eq_same, Nat.cast_mul]
    ring

theorem eval_monomial_pair (s : Fin 2 →₀ Nat) (c x y : K) :
    eval ![x, y] (monomial s c) = c * (x ^ s 0 * y ^ s 1) := by
  rw [eval_monomial, Finsupp.prod_fintype _ _ (by simp), Fin.prod_univ_two]
  simp

variable [CharZero K]

/-- The Taylor coefficients of a single power are products of binomial coefficients. -/
theorem taylorCoefficient_monomial (s : Fin 2 →₀ Nat) (c : K) (e : Monomial) (x y : K) :
    taylorCoefficient (monomial s c) e x y =
      c * (((s 0).choose e.x * x ^ (s 0 - e.x)) * ((s 1).choose e.y * y ^ (s 1 - e.y))) := by
  have hx : (e.x.factorial : K) ≠ 0 := by exact_mod_cast e.x.factorial_ne_zero
  have hy : (e.y.factorial : K) ≠ 0 := by exact_mod_cast e.y.factorial_ne_zero
  rw [taylorCoefficient, iterate_pderiv_monomial, iterate_pderiv_monomial, eval_monomial_pair]
  simp only [Finsupp.coe_tsub, Pi.sub_apply, Finsupp.single_apply,
    Nat.descFactorial_eq_factorial_mul_choose]
  simp
  field_simp

/-- A single power at a point away from the centre, expanded along both axes. -/
theorem sum_taylorCoefficient_monomial {k : Nat} {s : Fin 2 →₀ Nat} (hs : s 0 + s 1 ≤ k)
    (c x y u v : K) :
    ∑ e ∈ (Monomial.upTo k).toFinset,
        taylorCoefficient (monomial s c) e x y * (u ^ e.x * v ^ e.y) =
      eval ![x + u, y + v] (monomial s c) := by
  -- only monomials that divide the power have a coefficient, and these form a rectangle
  have hdivides : ∀ e ∈ (Monomial.upTo k).toFinset,
      taylorCoefficient (monomial s c) e x y * (u ^ e.x * v ^ e.y) ≠ 0 →
        e.x ≤ s 0 ∧ e.y ≤ s 1 := by
    intro e _ he
    rw [taylorCoefficient_monomial] at he
    by_contra h
    rcases not_and_or.1 h with h | h
    · simp [Nat.choose_eq_zero_of_lt (not_le.1 h)] at he
    · simp [Nat.choose_eq_zero_of_lt (not_le.1 h)] at he
  rw [← Finset.sum_filter_of_ne hdivides, eval_monomial_pair, add_comm x, add_comm y, add_pow,
    add_pow, Finset.sum_mul_sum, ← Finset.sum_product', Finset.mul_sum]
  refine Finset.sum_nbij' (fun e => (e.x, e.y)) (fun p => ⟨p.1, p.2⟩) ?_ ?_ ?_ ?_ ?_
  · intro e he
    simp only [Finset.mem_filter] at he
    simp only [Finset.mem_product, Finset.mem_range]
    omega
  · intro p hp
    simp only [Finset.mem_product, Finset.mem_range] at hp
    simp only [Finset.mem_filter, List.mem_toFinset, Monomial.mem_upTo]
    omega
  · intro e _
    rfl
  · intro p _
    rfl
  · intro e _
    rw [taylorCoefficient_monomial]
    ring

/-- **Taylor expansion.** A polynomial of degree at most `k` is the sum of its Taylor coefficients
at a point times the monomials in the offsets from there. -/
theorem sum_taylorCoefficient {k : Nat} {P : MvPolynomial (Fin 2) K} (hP : P.totalDegree ≤ k)
    (x y u v : K) :
    ∑ e ∈ (Monomial.upTo k).toFinset, taylorCoefficient P e x y * (u ^ e.x * v ^ e.y) =
      eval ![x + u, y + v] P := by
  have hpowers : ∀ s ∈ P.support, s 0 + s 1 ≤ k := by
    intro s hs
    have hdegree := (le_totalDegree hs).trans hP
    rwa [Finsupp.sum_fintype _ _ (fun _ => rfl), Fin.sum_univ_two] at hdegree
  -- both sides are additive, so the powers of the polynomial may be expanded one by one
  rw [P.as_sum]
  refine Finset.sum_induction (fun s => monomial s (coeff s P)) (fun Q =>
    ∑ e ∈ (Monomial.upTo k).toFinset, taylorCoefficient Q e x y * (u ^ e.x * v ^ e.y) =
      eval ![x + u, y + v] Q) ?_ ?_ ?_
  · intro Q R hQ hR
    simp only [taylorCoefficient_add, add_mul, Finset.sum_add_distrib, hQ, hR, map_add]
  · simp [taylorCoefficient_zero]
  · intro s hs
    exact sum_taylorCoefficient_monomial (hpowers s hs) _ x y u v

end Taylor

end Facet
