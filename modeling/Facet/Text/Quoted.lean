import Facet.Text.Printable

/-!
# Quoted text

Text inside a message stands in quotes, so that blanks at its ends and control characters can be
seen. Single quotes are used unless the text holds single quotes and no double ones.
-/

namespace Facet.Text

/-- `value` in lower-case hexadecimal with at least `width` digits. -/
def hex (width value : Nat) : List Char :=
  let digits := Nat.toDigits 16 value
  List.replicate (width - digits.length) '0' ++ digits

/-- Two hexadecimal digits per byte. -/
def hexBytes (bytes : List UInt8) : String :=
  String.ofList (bytes.flatMap fun b => hex 2 b.toNat)

/-- The numeric escape of a code point: two, four or eight hexadecimal digits, as many as it
needs. -/
def numericEscape (code : Nat) : List Char :=
  if code < 0x100 then '\\' :: 'x' :: hex 2 code
  else if code < 0x10000 then '\\' :: 'u' :: hex 4 code
  else '\\' :: 'U' :: hex 8 code

/-- One character of quoted text. -/
def escape (quote c : Char) : List Char :=
  if c = quote ∨ c = '\\' then ['\\', c]
  else if c = '\n' then ['\\', 'n']
  else if c = '\r' then ['\\', 'r']
  else if c = '\t' then ['\\', 't']
  else if isPrintable c then [c]
  else numericEscape c.toNat

/-- The quote that needs the fewest escapes, single unless only double ones need none. -/
def quoteFor (cs : List Char) : Char := if '\'' ∈ cs ∧ '"' ∉ cs then '"' else '\''

/-- Text in quotes. -/
def quoted (s : String) : String :=
  let quote := quoteFor s.toList
  String.ofList (quote :: (s.toList.flatMap (escape quote)) ++ [quote])

/-- One byte of a quoted byte string: only plain ASCII is shown as it is. -/
def escapeByte (quote : Char) (b : UInt8) : List Char :=
  let c := Char.ofNat b.toNat
  if b < 127 then escape quote c else numericEscape b.toNat

/-- A byte string in quotes, after a `b`. -/
def quotedBytes (bytes : List UInt8) : String :=
  let quote := quoteFor (bytes.map fun b => Char.ofNat b.toNat)
  String.ofList ('b' :: quote :: (bytes.flatMap (escapeByte quote)) ++ [quote])

end Facet.Text
