/-!
# Words of so many bits

A word of `n` bits holds one of `2 ^ n` numbers. Read without a sign these are the natural numbers
below that bound; read in two's complement, half of them are negative. In memory the bytes of a word
stand lowest first.
-/

namespace Facet.Word

/-- How many different words of so many bits there are. -/
def count (bits : Nat) : Nat := Nat.pow 2 bits

/-- The least number that is too great for a word of so many bits with a sign. -/
def signedEnd (bits : Nat) : Int := count (bits - 1)

/-- Whether a number is that of a word with a sign. -/
def fitsSigned (bits : Nat) (n : Int) : Bool := -signedEnd bits ≤ n && n < signedEnd bits

/-- The word, without a sign, that is congruent to a number. -/
def wrap (bits : Nat) (n : Int) : Nat := (n % count bits).toNat

/-! ## Bytes -/

/-- The `width` lowest bytes of a natural number, lowest first. -/
def bytes : Nat → Nat → List UInt8
  | 0, _ => []
  | width + 1, n => UInt8.ofNat (n % 256) :: bytes width (n / 256)

/-- The natural number that bytes spell, lowest first. -/
def ofBytes : List UInt8 → Nat
  | [] => 0
  | b :: rest => b.toNat + 256 * ofBytes rest

/-- A number as the eight bytes of a word with a sign. -/
def signedBytes (n : Int) : List UInt8 := bytes 8 (wrap 64 n)

/-- The number that the eight bytes of a word with a sign spell. -/
def ofSignedBytes (data : List UInt8) : Int := Int.bmod (ofBytes data) (count 64)

end Facet.Word
