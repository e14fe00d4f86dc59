import Facet.Table

/-!
# Singular value decompositions

A matrix `A` is taken apart as `U · diag(s) · V`, with as many singular values as the shorter side
has entries: `U` has orthonormal columns, `V` orthonormal rows, and no `s` is negative. Nothing is
said about the order of the singular values, and where they repeat the vectors are not unique; what
is computed from a decomposition must not depend on the choice.

For doubles the decomposition is found by turning pairs of columns into each other until all are
perpendicular. Then the lengths of the columns are the singular values.
-/

namespace Facet

/-- A matrix taken apart into directions and singular values. -/
structure ThinSvd (α : Type) (m n : Nat) where
  /-- The columns of this table are orthonormal. -/
  left : Table α m (min m n)
  /-- The singular values. -/
  values : Vector α (min m n)
  /-- The rows of this table are orthonormal. -/
  right : Table α (min m n) n

namespace ThinSvd

variable {α : Type} {m n : Nat}

/-- The decomposition of the transposed matrix. -/
def transpose (d : ThinSvd α m n) : ThinSvd α n m where
  left := Table.ofFn fun i l => d.right.entry (l.cast (Nat.min_comm n m)) i
  values := d.values.cast (Nat.min_comm m n)
  right := Table.ofFn fun l j => d.left.entry j (l.cast (Nat.min_comm n m))

end ThinSvd

/-- Numbers over which matrices can be taken apart. -/
class Decomposition (α : Type) where
  /-- Some decomposition of a matrix. -/
  svd : {m n : Nat} → Table α m n → ThinSvd α m n

/-! ## Doubles -/

namespace Jacobi

/-- The inner product of two columns. -/
def dot {m : Nat} (x y : Vector Float m) : Float :=
  Fin.foldl m (fun total i => total + x.get i * y.get i) 0

/-- A turn of the plane, by its cosine and sine. -/
structure Turn where
  /-- The cosine. -/
  c : Float
  /-- The sine. -/
  s : Float

/-- The turn that makes two columns perpendicular, from their square lengths and inner product.
Of the two such turns it is the smaller one. -/
def Turn.between (xx yy xy : Float) : Turn :=
  let z := (yy - xx) / (2 * xy)
  let t := (if z < 0 then -1 else 1) / (z.abs + (1 + z * z).sqrt)
  let c := 1 / (1 + t * t).sqrt
  ⟨c, c * t⟩

/-- Turns two columns into each other. -/
def Turn.apply {m : Nat} (r : Turn) (x y : Vector Float m) : Vector Float m × Vector Float m :=
  (Vector.zipWith (fun a b => r.c * a - r.s * b) x y,
    Vector.zipWith (fun a b => r.s * a + r.c * b) x y)

/-- Columns on the way to be perpendicular, with all turns that were made so far. -/
structure State (m n : Nat) where
  /-- The columns of the matrix. -/
  columns : Table Float n m
  /-- The columns of the turns, applied to the unit matrix. -/
  turns : Table Float n n
  /-- Whether a pair was turned since the last sweep began. -/
  moved : Bool

/-- How far from perpendicular two columns of unit length may be. -/
def tolerance : Float := Float.scaleB 1 (-52)

/-- Makes columns `p` and `q` perpendicular. -/
def turnPair {m n : Nat} (s : State m n) (p q : Fin n) : State m n :=
  let x := s.columns.get p
  let y := s.columns.get q
  let xx := dot x x
  let yy := dot y y
  let xy := dot x y
  if xy.abs ≤ tolerance * (xx * yy).sqrt then s
  else
    let turn := Turn.between xx yy xy
    let (x, y) := turn.apply x y
    let (v, w) := turn.apply (s.turns.get p) (s.turns.get q)
    ⟨(s.columns.set p x).set q y, (s.turns.set p v).set q w, true⟩

/-- Makes all pairs of columns perpendicular in turn. -/
def sweep {m n : Nat} (s : State m n) : State m n :=
  Fin.foldl n (fun s p => Fin.foldl n (fun s q => if p < q then turnPair s p q else s) s)
    { s with moved := false }

/-- Sweeps until no pair is turned any more, at most `fuel` times. -/
def settle {m n : Nat} : Nat → State m n → State m n
  | 0, s => s
  | fuel + 1, s =>
    let s := sweep s
    if s.moved then settle fuel s else s

/-- The power of two next above the greatest entry; scaling by it keeps squares within range. -/
def magnitude {m n : Nat} (a : Table Float m n) : Int :=
  let top := a.foldl (fun top row => row.foldl (fun top x => max top x.abs) top) 0
  if top == 0 then 0 else top.frExp.2

/-- The number of sweeps after which the search for perpendicular columns is given up. A dozen
suffice for any matrix of moderate size. -/
def sweepLimit : Nat := 60

/-- The decomposition of a matrix that is no wider than high. A column that vanishes has no
direction, so the direction that belongs to a singular value of zero is left zero. -/
def decompose {m n : Nat} (a : Table Float m n) (tall : n ≤ m) : ThinSvd Float m n :=
  let scale := magnitude a
  let start : State m n :=
    ⟨Table.ofFn fun j i => (a.entry i j).scaleB (-scale),
      Table.ofFn fun i j => if i = j then 1 else 0, false⟩
  let final := settle sweepLimit start
  let lengths : Vector Float n := final.columns.map fun x => (dot x x).sqrt
  let rank : min m n = n := Nat.min_eq_right tall
  { left := Table.ofFn fun i l =>
      let l := l.cast rank
      if lengths.get l == 0 then 0 else final.columns.entry l i / lengths.get l
    values := Vector.ofFn fun l => (lengths.get (l.cast rank)).scaleB scale
    right := Table.ofFn fun l j => final.turns.entry (l.cast rank) j }

/-- The decomposition of any matrix; one that is wider than high is turned on its side. -/
def svd {m n : Nat} (a : Table Float m n) : ThinSvd Float m n :=
  if h : n ≤ m then decompose a h else (decompose a.transpose (Nat.le_of_not_le h)).transpose

end Jacobi

instance : Decomposition Float := ⟨Jacobi.svd⟩

end Facet
