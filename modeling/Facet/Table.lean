import Facet.Scalar

/-!
# Tables and sums

A table of `m` rows and `n` columns is stored row by row, each entry computed once. Reading an entry
of a table that was built from a function gives the value of that function there, and a table is
determined by its entries: so a proof may treat a table as the function it was built from.
-/

namespace Facet

@[simp] theorem get_eq_getElem {α : Type} {n : Nat} (v : Vector α n) (i : Fin n) :
    v.get i = v[i.val] := rfl

/-- A stored table of `m` rows with `n` entries each. -/
abbrev Table (α : Type) (m n : Nat) := Vector (Vector α n) m

namespace Table

variable {α : Type} {m n : Nat}

/-- The table of the values of a function. -/
@[inline] def ofFn (f : Fin m → Fin n → α) : Table α m n :=
  Vector.ofFn fun i => Vector.ofFn (f i)

/-- The entry in row `i` and column `j`. -/
@[inline] def entry (t : Table α m n) (i : Fin m) (j : Fin n) : α := (t.get i).get j

@[simp] theorem entry_ofFn (f : Fin m → Fin n → α) (i : Fin m) (j : Fin n) :
    (ofFn f).entry i j = f i j := by
  simp [entry, ofFn]

theorem ext_entry {s t : Table α m n} (h : ∀ i j, s.entry i j = t.entry i j) : s = t := by
  apply Vector.ext
  intro i hi
  apply Vector.ext
  intro j hj
  exact h ⟨i, hi⟩ ⟨j, hj⟩

@[simp] theorem ofFn_entry (t : Table α m n) : ofFn t.entry = t :=
  ext_entry fun i j => entry_ofFn t.entry i j

/-- Rows and columns exchanged. -/
def transpose (t : Table α m n) : Table α n m := ofFn fun i j => t.entry j i

@[simp] theorem entry_transpose (t : Table α m n) (i : Fin n) (j : Fin m) :
    t.transpose.entry i j = t.entry j i := entry_ofFn _ i j

end Table

/-- The sum of the values of a function, from the first to the last, starting from zero. -/
@[specialize] def sumOver {α : Type} [Scalar α] (n : Nat) (f : Fin n → α) : α :=
  Fin.foldl n (fun total i => total + f i) 0

end Facet
