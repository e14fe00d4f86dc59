import Facet.Fault
import Facet.Value.Basic
import Facet.Word

/-!
# Configuration records

A record holds the order and the size of the window as two signed 64-bit integers, lowest byte
first, and nothing else. So it is always sixteen bytes long, and every sixteen bytes are a record;
whether its numbers make a valid configuration is decided only when it is used.
-/

namespace Facet

/-- The contents of a configuration record. -/
structure Record where
  /-- What should be the order. -/
  order : Int
  /-- What should be the side of the window. -/
  window : Int
deriving Repr, DecidableEq

namespace Record

/-- The number of bytes of a record. -/
def length : Nat := 16

/-- The bytes of a record. -/
def encode (r : Record) : List UInt8 := Word.signedBytes r.order ++ Word.signedBytes r.window

/-- The record in a byte string. -/
def decode (bytes : List UInt8) : Except RecordFault Record :=
  if bytes.length = length then
    .ok ⟨Word.ofSignedBytes (bytes.take 8), Word.ofSignedBytes (bytes.drop 8)⟩
  else .error (.wrongLength bytes.length)

/-- The number of bytes that a byte string needs besides those in it: no byte string is so long
that both together do not fit in 64 bits. -/
def overhead : Int := 33

/-- The record in so many zero bytes. -/
def ofCount (n : Int) : Except Fault Record :=
  if !Word.fitsSigned 64 n then .error (.argument .countOverflow)
  else if n < 0 then .error (.argument .negativeCount)
  else if !Word.fitsSigned 64 (n + overhead) then .error (.argument .tooManyBytes)
  else if n = length then (decode (List.replicate length 0)).mapError .record
  else .error (.record (.wrongLength n.toNat))

/-- The bytes that a list of numbers stands for. The kind is that of the whole list. -/
def bytesOf (kind : String) : List Value → Except Fault (List UInt8)
  | [] => .ok []
  | v :: rest =>
    match v.integer? with
    | none => .error (.record (.notBytes kind))
    | some n =>
      if 0 ≤ n ∧ n < 256 then do
        let bytes ← bytesOf kind rest
        return UInt8.ofNat n.toNat :: bytes
      else .error (.argument .byteRange)

/-- The record in a value of any kind: a byte string, a list of byte values, or a number of zero
bytes. -/
def ofValue (v : Value) : Except Fault Record :=
  match v with
  | .bytes data => (decode data).mapError .record
  | .bool b => ofCount (if b then 1 else 0)
  | .int n => ofCount n
  | .list items => do (decode (← bytesOf v.className items)).mapError .record
  | .mapping entries => do (decode (← bytesOf v.className (entries.map Prod.fst))).mapError .record
  | .null | .float _ | .text _ | .date _ | .moment _ => .error (.record (.notBytes v.className))

end Record

end Facet
