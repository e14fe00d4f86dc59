import Facet.Fault
import Facet.Text.Number
import Facet.Word

/-!
# Values turned into numbers

Where a number is computed with, more than numbers is accepted: text and byte strings are read,
truth values count as 0 and 1, and a double that has to be a whole number loses its fraction.
-/

namespace Facet.Value

/-- The characters of a byte string, one for each byte. Bytes beyond ASCII are no digits and no
blanks, so in a number they stand for a character that is neither. -/
def byteText (data : List UInt8) : String :=
  String.ofList (data.map fun b => if b < 128 then Char.ofNat b.toNat else Char.ofNat 0xfffd)

/-- The fault of a text that should be a whole number in decimal digits. -/
def numeralFault (v : Value) : Text.NumeralFault → ArgumentFault
  | .malformed => .notIntText 10 v
  | .tooLong digits => .tooManyDigits digits

/-- `mantissa · 2 ^ exponent` without its fraction. -/
def truncated (x : Int × Int) : Int :=
  (x.1 * Nat.pow 2 x.2.toNat).tdiv (Nat.pow 2 (-x.2).toNat)

/-- A value as a whole number. -/
def toInt (v : Value) : Except ArgumentFault Int :=
  match v with
  | .bool _ | .int _ => .ok (v.integer?.getD 0)
  | .float x =>
    match v.dyadic? with
    | some pair => .ok (truncated pair)
    | none => .error (if x.isNaN then .nanToInt else .infinityToInt)
  | .text s => (Text.readInt s).mapError (numeralFault v)
  | .bytes data => (Text.readInt (byteText data)).mapError (numeralFault v)
  | .null | .list _ | .mapping _ | .date _ | .moment _ => .error (.notInt v.kind)

/-- A value as a 64-bit integer. -/
def toWord (v : Value) : Except ArgumentFault Int64 := do
  let n ← v.toInt
  if Word.fitsSigned 64 n then return Int64.ofInt n else throw .wordOverflow

/-- A value as a double. What is missing counts as not a number. -/
def toDouble (v : Value) : Except ArgumentFault Float :=
  match v with
  | .null => .ok (0 / 0)
  | .bool b => .ok (if b then 1 else 0)
  | .int n =>
    let x := Float.ofInt n
    if x.isInf then .error .floatOverflow else .ok x
  | .float x => .ok x
  | .text s =>
    match Text.readFloat? s with
    | some x => .ok x
    | none => .error (.notFloatText v)
  | .bytes data =>
    match Text.readFloat? (byteText data) with
    | some x => .ok x
    | none => .error (.notFloatText v)
  | .list _ | .mapping _ | .date _ | .moment _ => .error (.notFloat v.kind)

end Facet.Value
