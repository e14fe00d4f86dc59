import Facet.Image.ElementType
import Facet.Tensor
import Facet.Word

/-!
# Arrays of samples

An image arrives as an array whose elements have a type, or as nested lists from which the type has
to be found. Whole numbers stay exact until they are needed as intensities; what is no number is
carried along, since only its type decides what becomes of it.
-/

namespace Facet

/-- One element of an array. -/
inductive Sample (α : Type) where
  /-- A whole number, or a truth value counted as one. -/
  | whole (n : Int)
  /-- A number. -/
  | real (x : α)
  /-- What is no number. -/
  | loose (v : Value)

/-- An array of elements of one type. -/
structure Samples (α : Type) where
  /-- The type of the elements. -/
  element : ElementType
  /-- The elements. -/
  array : Tensor (Sample α)

variable {α : Type} [Scalar α]

namespace Sample

/-- An element as a number. What is none becomes whatever stands for no number; where that matters
it was refused before. -/
def toReal : Sample α → α
  | .whole n => Scalar.ofInt n
  | .real x => x
  | .loose _ => Scalar.ofDouble (0 / 0)

/-- An element as a number of single precision. -/
def toSingle : Sample α → α
  | .whole n => Scalar.singleOfInt n
  | .real x => Scalar.single x
  | .loose _ => Scalar.ofDouble (0 / 0)

/-- An element as a whole number. -/
def toWhole : Sample α → Int
  | .whole n => n
  | .real _ | .loose _ => 0

end Sample

/-! ## Storing values -/

/-- Whether a value counts as true: all do but nothing, zero and what is empty. -/
def Value.isTruthy : Value → Bool
  | .null => false
  | .bool b => b
  | .int n => n != 0
  | .float x => !(x == 0)
  | .text s => !s.isEmpty
  | .bytes data => !data.isEmpty
  | .list items => !items.isEmpty
  | .mapping entries => !entries.isEmpty
  | .date _ | .moment _ => true

namespace ElementType

/-- Whether a whole number can be taken up at all, before it is looked at whether an integer type
holds it. -/
def admits (signed : Bool) (bits : Nat) (n : Int) : Bool :=
  Word.fitsSigned 64 n || (!signed && 32 ≤ bits && 0 ≤ n && n < Word.count 64)

/-- The number of an integer type that is congruent to a number. -/
def wrap (signed : Bool) (bits : Nat) (n : Int) : Int :=
  if signed then Int.bmod n (Word.count bits) else Word.wrap bits n

/-- A value as an element of an integer type. Whole numbers have to be in range, while those that
are made from doubles or read from text wrap around. -/
def storeInteger (signed : Bool) (bits : Nat) (v : Value) : Except ArgumentFault Int := do
  let n ← v.toInt
  if !admits signed bits n then throw .wordOverflow
  else
    let wrapped := wrap signed bits n
    if v.integer?.isSome && wrapped != n then
      throw (.elementRange n (ElementType.integer signed bits).name)
    else return wrapped

/-- The bytes of text in ASCII. -/
def asciiBytes (s : String) : Except ArgumentFault (List UInt8) :=
  if s.toList.all fun c => c.toNat < 128 then .ok (s.toList.map fun c => UInt8.ofNat c.toNat)
  else .error (.notAsciiText s)

/-- The characters of bytes in ASCII. -/
def asciiText (data : List UInt8) : Except ArgumentFault (List Char) :=
  match data.dropWhile (· < 128) with
  | [] => .ok (data.map fun b => Char.ofNat b.toNat)
  | byte :: _ => .error (.notAsciiByte byte (data.takeWhile (· < 128)).length)

/-- What is stored where there is no time. -/
def noTime : Int := -Word.signedEnd 64

/-- A value stored as an element of a type: whole where the type is, rounded where it is a
floating-point type, cut off where it is text of some length, and as it is where the type holds
anything. Of complex numbers only real ones are given. -/
def store (type : ElementType) (v : Value) : Except ArgumentFault (Sample α) :=
  match type, v with
  | .bool, v => .ok (.whole (if v.isTruthy then 1 else 0))
  | .integer signed bits, v => .whole <$> storeInteger signed bits v
  | .real bits, v => do
    return .real (Scalar.ofDouble (roundedTo (.real bits) (← v.toDouble)))
  | .complex bits, v => do
    return .real (Scalar.ofDouble (roundedTo (.real (bits / 2)) (← v.toDouble)))
  | .bytes length, .bytes data => .ok (.loose (.bytes (data.take length)))
  | .bytes length, v => do return .loose (.bytes ((← asciiBytes v.plain).take length))
  | .text length, .bytes data => do
    return .loose (.text (String.ofList ((← asciiText data).take length)))
  | .text length, v => .ok (.loose (.text (String.ofList (v.plain.toList.take length))))
  | .span _, .bool b | .instant _, .bool b => .ok (.whole (if b then 1 else 0))
  | .span _, .int n | .instant _, .int n =>
    if Word.fitsSigned 64 n then .ok (.whole n) else .error .wordOverflow
  | .span _, .null | .instant _, .null => .ok (.whole noTime)
  | .span _, v | .instant _, v | .record .., v | .loose, v => .ok (.loose v)

/-! ## The type of nested lists -/

/-- The type of a value by itself. -/
def ofLeaf : Value → ElementType
  | .bool _ => .bool
  | .int n =>
    if Word.fitsSigned 64 n then .integer true 64
    else if 0 ≤ n ∧ n < Word.count 64 then .integer false 64
    else .loose
  | .float _ => .real 64
  | .text s => .text s.length
  | .bytes data => .bytes data.length
  | _ => .loose

/-- The number of characters that any element of a type takes when written as text. -/
def textWidth : ElementType → Nat
  | .bool => 5
  | .integer true _ => 21
  | .integer false _ => 20
  | .text length | .bytes length => length
  | _ => 32

/-- The type that the elements of two types have in common. Numbers stay numbers, and what is joined
with text becomes text. Integers with and without sign have only floating-point numbers in
common. -/
def join (a b : ElementType) : ElementType :=
  let length := max a.textWidth b.textWidth
  match a, b with
  | .loose, _ | _, .loose => .loose
  | .text _, _ | _, .text _ => .text length
  | .bytes _, _ | _, .bytes _ => .bytes length
  | .bool, b => b
  | a, .bool => a
  | a, b => if a = b then a else .real 64

/-- The type that all leaves of a list have in common, found from the first to the last. Text has at
least one character. -/
def ofLeaves (leaves : List Value) : ElementType :=
  match leaves.map ofLeaf with
  | [] => .real 64
  | first :: rest =>
    match rest.foldl join first with
    | .text length => .text (max 1 length)
    | .bytes length => .bytes (max 1 length)
    | type => type

end ElementType

namespace Samples

/-- The lengths of the axes. -/
def shape (s : Samples α) : List Nat := s.array.shape

/-- The array that nested lists stand for. -/
def ofValue (v : Value) : Except ArgumentFault (Samples α) := do
  let t ← Tensor.ofValue v
  let element := ElementType.ofLeaves t.toList
  return ⟨element, ← t.mapExcept element.store⟩

/-- The array of a type and a shape with the given entries in order. -/
def ofEntries (element : ElementType) (shape : List Nat) (entries : List Value) :
    Except ArgumentFault (Samples α) := do
  let stored ← entries.mapM element.store
  match Tensor.ofList? shape stored with
  | some t => return ⟨element, t⟩
  | none => throw (.entryCount entries.length shape)

/-- The array of a type and a shape all of whose entries are one value. -/
def ofFill (element : ElementType) (shape : List Nat) (v : Value) :
    Except ArgumentFault (Samples α) := do
  return ⟨element, .fill shape (← element.store v)⟩

end Samples

/-! ## Arguments that should be arrays -/

/-- An argument that is an array already, or still nested lists. -/
inductive ArrayLike (α : Type) where
  /-- An array. -/
  | array (samples : Samples α)
  /-- Nested lists, or anything else. -/
  | nested (v : Value)

namespace ArrayLike

/-- The argument as an array. -/
def toSamples : ArrayLike α → Except ArgumentFault (Samples α)
  | .array samples => .ok samples
  | .nested v => Samples.ofValue v

/-- A value as a number. -/
def number (v : Value) : Except ArgumentFault α := v.toDouble.map Scalar.ofDouble

/-- An element that is no number by itself as a number. -/
def looseNumber (type : ElementType) (v : Value) : Except ArgumentFault α :=
  match type, number v with
  | .text _, .error (.notFloatText text) | .bytes _, .error (.notFloatText text) =>
    .error (.notFloatElement text)
  | _, result => result

/-- The argument as an array of numbers. Text that reads as a number is one. -/
def toNumbers : ArrayLike α → Except ArgumentFault (Tensor α)
  | .array samples => samples.array.mapExcept fun
    | .loose v => looseNumber samples.element v
    | s => .ok s.toReal
  | .nested v => do (← Tensor.ofValue v).mapExcept number

/-- The argument as it is, if it is an array; nothing else has the members of one. -/
def demand (member : String) : ArrayLike α → Except Fault (Samples α)
  | .array samples => .ok samples
  | .nested v => .error (.member (.missing v.kind member))

end ArrayLike

end Facet
