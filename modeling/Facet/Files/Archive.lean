import Facet.Extractor.Basic
import Facet.Files.Folder
import Facet.Word

/-!
# Archives of features

Features are kept in an archive together with the configuration that they were extracted with. An
archive is written under a name with the ending `.npz`, which is added where it is missing; but it
is read under the name that is given. Its numbers are words of 64 bits without a sign. A greater
number is kept as an object, and an archive with objects can be written but not read.
-/

namespace Facet

/-- The contents of an archive. -/
structure Archive (α : Type) where
  /-- The features. -/
  features : Grid α
  /-- The order of the polynomial. -/
  order : Nat
  /-- The side of the window. -/
  window : Nat
  /-- The stride. -/
  stride : Nat

namespace Archive

variable {α : Type}

/-- The ending of the names of archives. -/
def ending : String := ".npz"

/-- The name under which an archive is written. -/
def writtenName (path : String) : String := if path.endsWith ending then path else path ++ ending

/-- The archive of an extractor. -/
def ofExtractor [Scalar α] (x : Extractor α) : Archive α :=
  ⟨x.features, x.order.degree, x.window.side, x.stride.step⟩

/-- Writes an archive, in directories that are made if need be: those that lead to the name that is
given, whatever is added to it. -/
def save (f : Folder (Archive α)) (path : String) (a : Archive α) :
    Except Fault Unit × Folder (Archive α) :=
  match f.makeDirectory (Path.steps path).dropLast with
  | (.error cause, made) => (.error (.file cause), made)
  | (.ok (), made) =>
    let name := writtenName path
    match made.writeAt (Path.steps name) a with
    | .ok written => (.ok (), written)
    | .error o => (.error (.file (o.fault (f.shown name))), made)

/-- Whether all numbers of an archive are kept as words. -/
def isReadable (a : Archive α) : Bool :=
  [a.order, a.window, a.stride].all fun n => n < Word.count 64

/-- Reads an archive. -/
def load (f : Folder (Archive α)) (path : String) : Except Fault (Archive α) := do
  let a ← (f.readAt (Path.steps path)).mapError fun o => .file (o.fault (f.shown path))
  if a.isReadable then return a else throw (.file .storedObject)

end Archive

/-- Whether two numbers are the same, not a number being the same as itself. -/
def sameNumber (x y : Float) : Bool := x == y || (x.isNaN && y.isNaN)

namespace Grid

/-- All numbers of a grid in order. -/
def flat {α : Type} (g : Grid α) : List α :=
  g.values.toList.flatMap fun row => row.toList.flatMap Vector.toList

/-- Whether two grids have the same axes, and a relation holds between all their numbers. -/
def agree {α : Type} (g h : Grid α) (related : α → α → Bool) : Bool :=
  g.shape = h.shape && (g.flat.zip h.flat).all fun (x, y) => related x y

/-- Whether two numbers are close: their difference is at most a millionth of the second, and a
little for numbers near zero. Infinities are close only to themselves. -/
def close (x y : Float) : Bool :=
  if x.isNaN || y.isNaN then x.isNaN && y.isNaN
  else if x.isInf || y.isInf then x == y
  else (x - y).abs ≤ 1e-9 + 1e-6 * y.abs

end Grid

end Facet
