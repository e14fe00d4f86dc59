import Facet.Table
import Facet.Value.Number

/-!
# Arrays of any number of axes

A tensor holds its entries in one row, the last axis running fastest, and their number is the
product of the lengths of its axes. A nested list becomes a tensor if all the lists at one depth are
equally long; otherwise it is ragged, and the axes down to which the lengths agree are reported. An
array has only so many axes, and lists that are nested deeper become no tensor.
-/

namespace Facet

/-- The number of entries of an array with the given axes. -/
def extent : List Nat → Nat
  | [] => 1
  | n :: rest => n * extent rest

/-- An array with any number of axes. -/
structure Tensor (β : Type) where
  /-- The lengths of the axes. -/
  shape : List Nat
  /-- The entries, the last axis running fastest. -/
  entries : Vector β (extent shape)

namespace Tensor

variable {β γ : Type}

/-- The tensor with the given entries, if there are as many as the axes ask for. -/
def ofList? (shape : List Nat) (entries : List β) : Option (Tensor β) :=
  if h : entries.toArray.size = extent shape then some ⟨shape, ⟨entries.toArray, h⟩⟩ else none

/-- The tensor all of whose entries are one value. -/
def fill (shape : List Nat) (value : β) : Tensor β := ⟨shape, Vector.replicate (extent shape) value⟩

/-- The number of axes. -/
def rank (t : Tensor β) : Nat := t.shape.length

/-- The entries in order. -/
def toList (t : Tensor β) : List β := t.entries.toList

/-- The same shape with a function applied to every entry. -/
@[inline] def map (f : β → γ) (t : Tensor β) : Tensor γ := ⟨t.shape, t.entries.map f⟩

/-- The same shape with every entry converted in turn; the first refusal ends it. -/
@[inline] def mapExcept {ε : Type} (f : β → Except ε γ) (t : Tensor β) : Except ε (Tensor γ) := do
  return ⟨t.shape, ← t.entries.mapM f⟩

/-! ## Places of two and three axes -/

theorem place₂_lt {m n : Nat} (i : Fin m) (j : Fin n) : i.val * n + j.val < extent [m, n] := by
  have hi : (i.val + 1) * n ≤ m * n := Nat.mul_le_mul_right n i.isLt
  have hj := j.isLt
  simp only [extent, Nat.mul_one, Nat.add_mul, Nat.one_mul] at *
  omega

theorem place₃_lt {l m n : Nat} (h : Fin l) (i : Fin m) (j : Fin n) :
    (h.val * m + i.val) * n + j.val < extent [l, m, n] := by
  have hi := place₂_lt h i
  have hm := place₂_lt (⟨h.val * m + i.val, by simpa [extent] using hi⟩ : Fin (l * m)) j
  simpa [extent, Nat.mul_assoc] using hm

/-- The entry of an array with two axes. -/
@[inline] def entry₂ {m n : Nat} (entries : Vector β (extent [m, n])) (i : Fin m) (j : Fin n) : β :=
  entries.get ⟨i.val * n + j.val, place₂_lt i j⟩

/-- The entry of an array with three axes. -/
@[inline] def entry₃ {l m n : Nat} (entries : Vector β (extent [l, m, n])) (h : Fin l) (i : Fin m)
    (j : Fin n) : β :=
  entries.get ⟨(h.val * m + i.val) * n + j.val, place₃_lt h i j⟩

end Tensor

/-- The place on an axis that an index means; negative ones count from the end. -/
def axisPlace (axis length : Nat) (index : Int) : Except ArgumentFault (Fin length) :=
  let place := if index < 0 then index + length else index
  if h : place.toNat < length then
    if 0 ≤ place then .ok ⟨place.toNat, h⟩ else .error (.beyondAxis index axis length)
  else .error (.beyondAxis index axis length)

/-! ## Nested lists -/

/-- The axes on which two arrays agree, counted from the first. -/
def commonAxes : List Nat → List Nat → List Nat
  | m :: ms, n :: ns => if m = n then m :: commonAxes ms ns else []
  | _, _ => []

/-- The axes of a nested list, and whether all lists at one depth are equally long. -/
structure Axes where
  /-- The lengths of the axes, down to the last on which all agree. -/
  lengths : List Nat
  /-- Whether the agreement goes all the way down. -/
  regular : Bool

/-- The axes that two neighbouring items have in common. -/
def Axes.meet (a b : Axes) : Axes :=
  ⟨commonAxes a.lengths b.lengths, a.regular && b.regular && a.lengths = b.lengths⟩

/-- How many axes an array can have. -/
def Axes.limit : Nat := 64

mutual

/-- The axes of a value when there is room for so many: none for what is no list. A list for which
there is no room agrees with nothing. -/
def Value.axes : Nat → Value → Axes
  | 0, .list _ => ⟨[], false⟩
  | room + 1, .list items =>
    match Value.itemAxes room items with
    | none => ⟨[0], true⟩
    | some inner => ⟨items.length :: inner.lengths, inner.regular⟩
  | _, _ => ⟨[], true⟩

/-- The axes that all items of a list have in common; none for an empty list. -/
def Value.itemAxes : Nat → List Value → Option Axes
  | _, [] => none
  | room, v :: rest =>
    match Value.itemAxes room rest with
    | none => some (Value.axes room v)
    | some inner => some ((Value.axes room v).meet inner)

end

mutual

/-- What stands at the ends of a nested list, in order. -/
def Value.leaves : Value → List Value
  | .list items => Value.itemLeaves items
  | v => [v]

/-- What stands at the ends of the items of a list, in order. -/
def Value.itemLeaves : List Value → List Value
  | [] => []
  | v :: rest => v.leaves ++ Value.itemLeaves rest

end

/-- A nested list as a tensor. -/
def Tensor.ofValue (v : Value) : Except ArgumentFault (Tensor Value) :=
  let axes := Value.axes Axes.limit v
  let refusal : ArgumentFault :=
    if axes.lengths.length = Axes.limit then .tooDeep Axes.limit else .ragged axes.lengths
  if axes.regular then
    match Tensor.ofList? axes.lengths v.leaves with
    | some t => .ok t
    | none => .error refusal
  else .error refusal

end Facet
