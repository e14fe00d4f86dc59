import Mathlib
import Facet.Proofs.Operations

/-!
# Operators in exact numbers

The operator that is put together from a decomposition divides only by singular values above a
tolerance, and the tolerance is never negative. So where a decomposition consists of numbers, the
operator does as well, and it has the form that it has over the field.
-/

namespace Facet

variable {K : Type} [Field K] [LinearOrder K]

/-! ## The tolerance -/

theorem foldl_greater_number (values : List K) (start : K) :
    (values.map Exact.number).foldl Scalar.greater (Exact.number start) =
      .number (values.foldl max start) := by
  induction values generalizing start with
  | nil => rfl
  | cons x values ih =>
    have hgreater : Scalar.greater (Exact.number start) (Exact.number x) =
        .number (max start x) := by
      rw [Scalar.greater, Exact.less_number]
      by_cases h : start < x
      · simp [h, max_eq_right h.le]
      · simp [h, max_eq_left (not_lt.1 h)]
    rw [List.map_cons, List.foldl_cons, hgreater, ih, List.foldl_cons]

omit [Field K] in
theorem le_foldl_max (values : List K) (start : K) : start ≤ values.foldl max start := by
  induction values generalizing start with
  | nil => exact le_rfl
  | cons x values ih => exact (le_max_left start x).trans (ih _)

namespace ThinSvd

variable {m n : Nat}

omit [Field K] [LinearOrder K] in
theorem values_get_numbers (d : ThinSvd K m n) (l : Fin (min m n)) :
    d.numbers.values.get l = .number (d.values.get l) := by
  simp [ThinSvd.numbers]

theorem numbers_top (d : ThinSvd K m n) :
    d.numbers.top = .number (d.values.toList.foldl max 0) := by
  rw [top, ← Vector.foldl_toList, ThinSvd.numbers, Vector.toList_map]
  exact foldl_greater_number _ 0

variable [IsStrictOrderedRing K]

/-- What a singular value has to exceed is a number. -/
theorem numbers_tolerance (d : ThinSvd K m n) :
    d.numbers.tolerance = .number (d.values.toList.foldl max 0 * (max m n : Nat) / 2 ^ 52) := by
  have hprecision : ((precision : Int) : K) = 2 ^ 52 := by
    have : (precision : Int) = 2 ^ 52 := by decide
    rw [this]
    norm_num
  have hne : (2 ^ 52 : K) ≠ 0 := by positivity
  have hone : (1 : Exact K) = .number 1 := rfl
  rw [tolerance, numbers_top, Exact.ofInt_eq, Exact.ofInt_eq, hone, hprecision,
    Exact.number_div_of_ne hne, Exact.number_mul, Exact.number_mul]
  congr 1
  push_cast
  ring

theorem pos_of_keeps {d : ThinSvd K m n} {l : Fin (min m n)} (h : d.numbers.keeps l) :
    0 < d.values.get l := by
  have htop := le_foldl_max d.values.toList 0
  rw [keeps, numbers_tolerance, values_get_numbers, Exact.less_number] at h
  refine lt_of_le_of_lt ?_ (of_decide_eq_true h)
  positivity

/-- The operator over the field: the directions that count, with their singular values inverted. -/
def inverse (d : ThinSvd K m n) : Table K n m :=
  Table.ofFn fun i j => ∑ l : Fin (min m n),
    if d.numbers.keeps l then d.right.entry l i / d.values.get l * d.left.entry j l else 0

theorem pseudoInverse_numbers (d : ThinSvd K m n) :
    d.numbers.pseudoInverse = d.inverse.numbers := by
  refine Table.ext_entry fun i j => ?_
  rw [Table.entry_numbers, inverse, Table.entry_ofFn, ← sumOver_number, pseudoInverse,
    Table.entry_ofFn]
  refine sumOver_congr rfl fun l => ?_
  by_cases hkept : d.numbers.keeps l
  · -- what counts is positive, so it can be divided by
    have hl : d.values[l.val] ≠ 0 := (pos_of_keeps hkept).ne'
    have hleft : d.numbers.left.entry j l = .number (d.left.entry j l) :=
      Table.entry_numbers d.left j l
    have hright : d.numbers.right.entry l i = .number (d.right.entry l i) :=
      Table.entry_numbers d.right l i
    have hvalue := d.values_get_numbers l
    simp only [get_eq_getElem] at hvalue ⊢
    simp [hkept, hleft, hright, hvalue, Exact.number_div_of_ne hl]
  · simp [hkept, Exact.zero_eq]

end ThinSvd

/-! ## The operator of a model -/

/-- Whether matrices of numbers are taken apart into numbers. -/
def Decomposition.KeepsNumbers (K : Type) [Decomposition (Exact K)] : Prop :=
  ∀ {m n : Nat} (a : Table K m n), ∃ d : ThinSvd K m n, svd a.numbers = d.numbers

/-- The design matrix over the field. -/
def designTable (K : Type) [Field K] (k : Order) (w : Window) : Table K w.area k.terms :=
  Table.ofFn fun p i => ((designMatrix k w).entry p i : K)

omit [LinearOrder K] in
theorem entry_designTable (k : Order) (w : Window) (p : Fin w.area) (i : Fin k.terms) :
    (designTable K k w).entry p i =
      (((k.monomials.get i).eval (w.offsetX p) (w.offsetY p) : Int) : K) := by
  rw [designTable, Table.entry_ofFn, designMatrix, Table.entry_ofFn]

theorem FitModel.designOf_numbers (k : Order) (w : Window) :
    (designOf k w : Table (Exact K) w.area k.terms) = (designTable K k w).numbers := by
  refine Table.ext_entry fun p i => ?_
  rw [Table.entry_numbers, designTable, Table.entry_ofFn]
  simp [designOf, Table.entry]

variable [IsStrictOrderedRing K] [Decomposition (Exact K)]

/-- The operator of a model that is computed from numbers consists of numbers. -/
theorem FitModel.IsBuilt.exists_operator {m : FitModel (Exact K)} (h : m.IsBuilt)
    (hsvd : Decomposition.KeepsNumbers K) :
    ∃ operator : Table K m.order.terms m.window.area, m.operator = operator.numbers := by
  rcases m with ⟨k, w, a, operator⟩
  obtain ⟨d, hd⟩ := hsvd (designTable K k w)
  obtain ⟨fitted, hbuild⟩ := h
  simp only [build, fit, fitFrom, bind_eq_ok] at hbuild
  obtain ⟨computed, hcomputed, hbuild⟩ := hbuild
  cases hbuild
  split at hcomputed
  · cases hcomputed
  · split at hcomputed
    · cases hcomputed
    · refine ⟨d.inverse, ?_⟩
      rw [← Except.ok.inj hcomputed, designOf_numbers, hd]
      exact d.pseudoInverse_numbers

end Facet
