import Facet.Image.Samples

/-!
# Samples in memory

In memory the elements of an array stand one after the other, the last axis running fastest, each
with its lowest byte first. Text that is shorter than its type allows is filled up with zeros.
-/

namespace Facet

/-- The sixteen bits of a number of half precision: one for the sign, five for the exponent, ten for
the fraction. On the grid `2 ^ (g - 24)`, the finest that holds the leading digit within eleven, the
exponent and the fraction of `n` multiples are together `1024 * g + n`. -/
def halfBits (x : Float) : Nat :=
  let infinite := 31 * 1024
  let sign (negative : Bool) : Nat := if negative then 32 * 1024 else 0
  match Decimal.Binary.ofFloat x with
  | .nan => infinite + 512
  | .infinite negative => sign negative + infinite
  | .finite negative mantissa exponent =>
    let grid := max (exponent + (Nat.log2 mantissa : Int) - 10) (-24)
    let n := Decimal.roundQuotient (mantissa * Nat.pow 2 (exponent - grid).toNat)
      (Nat.pow 2 (grid - exponent).toNat)
    sign negative + min infinite (1024 * (grid + 24).toNat + n)

namespace ElementType

/-- The number of bytes that an element takes. -/
def width : ElementType → Nat
  | .bool => 1
  | .integer _ bits | .real bits | .complex bits => bits / 8
  | .bytes length | .record _ length => length
  | .text length => 4 * length
  | .loose | .instant _ | .span _ => 8

end ElementType

/-- Bytes cut off or filled up with zeros to a number of them. -/
def filled (width : Nat) (data : List UInt8) : List UInt8 :=
  data.take width ++ List.replicate (width - data.length) 0

/-- A number in so many bytes. -/
def realBytes (width : Nat) (x : Float) : List UInt8 :=
  Word.bytes width (match width with
    | 2 => halfBits x
    | 4 => x.toFloat32.toBits.toNat
    | _ => x.toBits.toNat)

/-- The bytes of an element. A complex number is followed by its imaginary part. -/
def Sample.bytes (type : ElementType) (x : Sample Float) : List UInt8 :=
  match type, x with
  | .complex bits, .real x => realBytes (bits / 16) x ++ List.replicate (bits / 16) 0
  | type, .real x => realBytes type.width x
  | type, .whole n => Word.bytes type.width (Word.wrap (8 * type.width) n)
  | type, .loose (.bytes data) => filled type.width data
  | type, .loose (.text s) =>
    filled type.width (s.toList.flatMap fun c => Word.bytes 4 c.toNat)
  | type, .loose _ => filled type.width []

/-- The bytes of each item along the first axis. -/
def Samples.itemBytes (s : Samples Float) : Except ArgumentFault (List (List UInt8)) :=
  match s.shape with
  | [] => .error .noItems
  | count :: rest =>
    let size := extent rest
    .ok ((List.range count).map fun i =>
      (s.array.entries.toArray.extract (i * size) ((i + 1) * size)).toList.flatMap
        (Sample.bytes s.element))

end Facet
