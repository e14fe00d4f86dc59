import Facet.Image.Samples
import Facet.Value.Arithmetic

/-!
# Coefficients of any shape

Coefficients may be given as an array with any number of axes. Along the last axis all but the first
are divided by the first. An axis that is empty stays empty, and an array without axes is refused.
-/

namespace Facet

variable {α : Type} [Scalar α]

/-- An argument that is an array of coefficients already; nothing else can be indexed along its last
axis. -/
def ArrayLike.coefficients : ArrayLike α → Except ArgumentFault (Samples α)
  | .array samples => .ok samples
  | .nested v => .error (.notIndexable v.kind)

/-- The quotients along the last axis. The first of them that is refused is reported. -/
@[specialize] def Tensor.quotientsWith {β γ : Type} (divide : β → β → Except ArgumentFault γ)
    (t : Tensor β) : Except ArgumentFault (Tensor γ) :=
  match t.shape.getLast? with
  | none => .error .noAxes
  | some n => do
    let shape := t.shape.dropLast ++ [n - 1]
    let pairs := (List.range (extent shape)).filterMap fun i =>
      let first := i / (n - 1) * n
      match t.entries[first + 1 + i % (n - 1)]?, t.entries[first]? with
      | some x, some y => some (x, y)
      | _, _ => none
    let entries ← pairs.mapM fun (x, y) => divide x y
    match Tensor.ofList? shape entries with
    | some t => return t
    | none => throw .noAxes

/-- The quotients of numbers along the last axis, each rounded as the numbers are. -/
@[specialize] def normalized (round : α → α) (t : Tensor α) : Except ArgumentFault (Tensor α) :=
  t.quotientsWith fun x y => .ok (round (x / y))

/-- The value of an element. -/
def Sample.value : Sample Float → Value
  | .whole n => .int n
  | .real x => .float x
  | .loose v => v

/-- A length of time as a number; one that does not exist is no number. -/
def Sample.toSpan : Sample Float → Float
  | .whole n => if n = ElementType.noTime then 0 / 0 else Float.ofInt n
  | s => s.toReal

/-- The quotients along the last axis of coefficients of any type. Loose values are divided one by
one, and a quotient that is complex is refused where it has to be a number. -/
def Samples.normalized (s : Samples Float) : Except ArgumentFault (Tensor Float) :=
  match s.element with
  | .loose => s.array.quotientsWith fun x y => x.value.divided y.value
  | .complex _ => s.array.quotientsWith fun _ _ => .error (.notFloat "complex")
  | .text _ | .bytes _ | .record .. =>
    if s.shape.isEmpty then .error .noAxes
    else .error (.noElementOperation "divide" [s.element.shown, s.element.shown])
  | .instant _ =>
    if s.shape.isEmpty then .error .noAxes
    else .error (.badElementOperands "divide" s.element.shown s.element.shown)
  | .span _ => Facet.normalized id (s.array.map Sample.toSpan)
  | type => Facet.normalized type.roundedTo (s.array.map Sample.toReal)

end Facet
