import Facet.Decimal.Rounding
import Facet.Value.Number

/-!
# Types of array elements

The elements of an array all have one type. Truth values, integers and floating-point numbers of
several widths can be intensities; complex numbers, text, dates, records and loose values cannot.
Lengths of time are integers.
-/

namespace Facet

/-- The type of the elements of an array. -/
inductive ElementType where
  /-- Truth values. -/
  | bool
  /-- Integers of a width in bits, with or without sign. -/
  | integer (signed : Bool) (bits : Nat)
  /-- Floating-point numbers of a width in bits. -/
  | real (bits : Nat)
  /-- Complex numbers of a width in bits. -/
  | complex (bits : Nat)
  /-- Byte strings of at most so many bytes. -/
  | bytes (length : Nat)
  /-- Texts of at most so many characters. -/
  | text (length : Nat)
  /-- Values of any kind. -/
  | loose
  /-- Points in time, counted in a unit. -/
  | instant (unit : String)
  /-- Lengths of time, counted in a unit. -/
  | span (unit : String)
  /-- Records of other elements, or bytes without a meaning of their own: the name of the type and
  the number of bytes. -/
  | record (name : String) (length : Nat)
deriving Repr, DecidableEq

namespace ElementType

/-- The name of an element type. -/
def name : ElementType → String
  | .bool => "bool"
  | .integer signed bits => (if signed then "int" else "uint") ++ toString bits
  | .real bits => "float" ++ toString bits
  | .complex bits => "complex" ++ toString bits
  | .bytes length => "|S" ++ toString length
  | .text length => "<U" ++ toString length
  | .loose => "object"
  | .instant unit => "datetime64[" ++ unit ++ "]"
  | .span unit => "timedelta64[" ++ unit ++ "]"
  | .record name _ => name

/-- The unmistakable text of an element type. -/
def shown (type : ElementType) : String :=
  let name := match type with
    | .bytes length => "S" ++ toString length
    | .instant unit => "<M8[" ++ unit ++ "]"
    | .span unit => "<m8[" ++ unit ++ "]"
    | type => type.name
  "dtype('" ++ name ++ "')"

/-- Whether elements of this type are real numbers. -/
def isReal : ElementType → Bool
  | .bool | .integer .. | .real _ | .span _ => true
  | .complex _ | .bytes _ | .text _ | .loose | .instant _ | .record .. => false

/-- The types that are known by name. -/
def known : List ElementType :=
  [.bool, .loose, .instant "s", .span "s"]
    ++ [8, 16, 32, 64].flatMap (fun bits => [.integer true bits, .integer false bits])
    ++ [16, 32, 64].map .real ++ [64, 128].map .complex

/-- The type of a given name. Types of text are named by a letter and a length, after an optional
mark of byte order. -/
def named? (name : String) : Option ElementType :=
  match known.find? (·.name == name) with
  | some type => some type
  | none =>
    let length? (digits : List Char) : Option Nat := (String.ofList digits).toNat?
    match name.toList with
    | 'S' :: digits | '|' :: 'S' :: digits => (length? digits).map .bytes
    | 'U' :: digits | '<' :: 'U' :: digits => (length? digits).map .text
    | _ => none

end ElementType

/-! ## Half precision -/

/-- A double rounded to the nearest number of eleven binary digits, the least of them no finer than
`2 ^ -24`; ties go to the even neighbour, and what is too large becomes infinite. -/
def halfPrecision (x : Float) : Float :=
  match Decimal.Binary.ofFloat x with
  | .nan | .infinite _ => x
  | .finite negative mantissa exponent =>
    let grid : Int := max (exponent + (Nat.log2 mantissa : Int) - 10) (-24)
    if mantissa = 0 ∨ grid ≤ exponent then
      if x.abs < 65520 then x else x / 0
    else
      let n := Decimal.roundQuotient mantissa (Nat.pow 2 (grid - exponent).toNat)
      let y := (Float.ofNat n).scaleB grid
      let y := if y < 65520 then y else 1 / 0
      if negative then -y else y

/-- Rounds a result that has the precision of an element type. -/
def ElementType.roundedTo : ElementType → Float → Float
  | .real 16, x => halfPrecision x
  | .real 32, x => x.toFloat32.toFloat
  | _, x => x

end Facet
