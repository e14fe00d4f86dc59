/-!
# Numbers written as text

Whole and decimal numbers as people type them: blanks around them do not matter, a sign may stand
in front, and one underscore may separate two digits. Digits of every script count.
-/

namespace Facet.Text

/-- The zeros of the decimal digits of every script; the other nine digits follow each of them. -/
def scriptZeros : List Nat :=
  [0x30, 0x660, 0x6f0, 0x7c0, 0x966, 0x9e6, 0xa66, 0xae6, 0xb66, 0xbe6, 0xc66, 0xce6, 0xd66, 0xde6,
    0xe50, 0xed0, 0xf20, 0x1040, 0x1090, 0x17e0, 0x1810, 0x1946, 0x19d0, 0x1a80, 0x1a90, 0x1b50,
    0x1bb0, 0x1c40, 0x1c50, 0xa620, 0xa8d0, 0xa900, 0xa9d0, 0xa9f0, 0xaa50, 0xabf0, 0xff10, 0x104a0,
    0x10d30, 0x11066, 0x110f0, 0x11136, 0x111d0, 0x112f0, 0x11450, 0x114d0, 0x11650, 0x116c0,
    0x11730, 0x118e0, 0x11950, 0x11c50, 0x11d50, 0x11da0, 0x16a60, 0x16ac0, 0x16b50, 0x1d7ce,
    0x1d7d8, 0x1d7e2, 0x1d7ec, 0x1d7f6, 0x1e140, 0x1e2f0, 0x1e950, 0x1fbf0]

/-- The value of a decimal digit of any script. -/
def digit? (c : Char) : Option Nat :=
  (scriptZeros.find? fun first => first ≤ c.toNat ∧ c.toNat < first + 10).map (c.toNat - ·)

/-- The blanks that may stand around a number: the ASCII ones, and the spaces and line separators
beyond ASCII. -/
def isBlank (c : Char) : Bool :=
  c.toNat ∈ [0x20, 0x9, 0xa, 0xb, 0xc, 0xd, 0x85, 0xa0, 0x1680, 0x2028, 0x2029, 0x202f,
      0x205f, 0x3000]
    || (0x2000 ≤ c.toNat && c.toNat ≤ 0x200a)

/-- Text without the blanks at both its ends. -/
def trim (cs : List Char) : List Char :=
  ((cs.dropWhile isBlank).reverse.dropWhile isBlank).reverse

/-- A sign in front, if there is one: whether it is a minus, and the rest. -/
def splitSign : List Char → Bool × List Char
  | '-' :: rest => (true, rest)
  | '+' :: rest => (false, rest)
  | cs => (false, cs)

/-- The digits of a run of digits in which single underscores may separate two digits; `none` if
anything else stands in it. An empty run is none. -/
def digits? : List Char → Option (List Nat)
  | [] => none
  | [c] => (digit? c).map ([·])
  | c :: '_' :: rest => do
    let d ← digit? c
    let ds ← digits? rest
    return d :: ds
  | c :: rest => do
    let d ← digit? c
    let ds ← digits? rest
    return d :: ds

/-- The number that a list of decimal digits spells. -/
def ofDigits (ds : List Nat) : Nat := ds.foldl (fun n d => 10 * n + d) 0

/-- The longest front part of digits and underscores, and the rest. -/
def spanDigits (cs : List Char) : List Char × List Char :=
  cs.span fun c => (digit? c).isSome || c = '_'

/-! ## Whole numbers -/

/-- Why a text is no whole number. -/
inductive NumeralFault where
  /-- It is not spelled like one. -/
  | malformed
  /-- It has more digits than are read. -/
  | tooLong (digits : Nat)
deriving Repr, DecidableEq

/-- How many decimal digits a whole number may have to be read or shown. -/
def digitLimit : Nat := 4300

/-- Reads a whole number in decimal digits. The digits are counted before what follows them is
looked at. -/
def readInt (s : String) : Except NumeralFault Int :=
  let (negative, body) := splitSign (trim s.toList)
  let (run, rest) := spanDigits body
  match digits? run with
  | none => .error .malformed
  | some ds =>
    if digitLimit < ds.length then .error (.tooLong ds.length)
    else if !rest.isEmpty then .error .malformed
    else
      let n : Int := ofDigits ds
      .ok (if negative then -n else n)

/-- The letters that may announce a base. -/
def baseLetters (base : Nat) : List Char :=
  if base = 2 then ['b', 'B'] else if base = 8 then ['o', 'O'] else if base = 16 then ['x', 'X']
  else []

/-- Digits without the zero and the letter that announce their base, if they are there. -/
def withoutBaseMark (base : Nat) : List Char → List Char
  | '0' :: letter :: rest =>
    if letter ∈ baseLetters base then rest else '0' :: letter :: rest
  | cs => cs

/-- The value of a digit, where letters follow after nine. -/
def basedDigit? (base : Nat) (c : Char) : Option Nat :=
  let value? := (digit? c).or <|
    if 'a' ≤ c ∧ c ≤ 'z' then some (c.toNat - 87)
    else if 'A' ≤ c ∧ c ≤ 'Z' then some (c.toNat - 55)
    else none
  value?.filter (· < base)

/-- Reads a whole number in the digits of a base that is a power of two. -/
def readBased? (base : Nat) (s : String) : Option Int := do
  let (negative, body) := splitSign (trim s.toList)
  let ds ← (withoutBaseMark base body).mapM (basedDigit? base)
  if ds.isEmpty then none
  else
    let n : Int := (ds.foldl (fun n d => base * n + d) 0 : Nat)
    return if negative then -n else n

/-- Whether a number is short enough to be shown. -/
def isShowable (n : Int) : Bool := n.natAbs < Nat.pow 10 digitLimit

/-! ## Decimal numbers -/

/-- Digits that may be missing altogether. -/
def optionalDigits? (cs : List Char) : Option (List Nat) :=
  if cs.isEmpty then some [] else digits? cs

/-- The power of ten behind an `e`; no exponent counts as zero. -/
def exponent? : List Char → Option Int
  | [] => some 0
  | c :: rest =>
    if c = 'e' ∨ c = 'E' then do
      let (negative, body) := splitSign rest
      let ds ← digits? body
      let n : Int := ofDigits ds
      return if negative then -n else n
    else none

/-- The names of values that are not finite, in any case. -/
def named? (cs : List Char) : Option Float :=
  match String.ofList (cs.map Char.toLower) with
  | "inf" | "infinity" => some (1 / 0)
  | "nan" => some (0 / 0)
  | _ => none

/-- `mantissa · 10 ^ exponent`, rounded to the nearest double. Exponents far out of range are cut
off first: what they give is zero or infinite anyway. -/
def scaledFloat (mantissa : Nat) (exponent : Int) : Float :=
  if mantissa = 0 then 0
  else
    let digits : Int := (Nat.toDigits 10 mantissa).length
    if exponent + digits < -400 then 0
    else if 400 < exponent + digits then 1 / 0
    else if exponent < 0 then Float.ofScientific mantissa true exponent.natAbs
    else Float.ofScientific mantissa false exponent.natAbs

/-- Reads digits with an optional point and an optional exponent. At least one digit stands before
the exponent. -/
def readPlain? (cs : List Char) : Option Float := do
  let (whole, rest) := spanDigits cs
  let (fraction, rest) :=
    match rest with
    | '.' :: tail => spanDigits tail
    | _ => ([], rest)
  let ws ← optionalDigits? whole
  let fs ← optionalDigits? fraction
  if ws.isEmpty && fs.isEmpty then none
  else
    let e ← exponent? rest
    return scaledFloat (ofDigits (ws ++ fs)) (e - fs.length)

/-- Reads a decimal number, or the name of an infinity or of no number. -/
def readFloat? (s : String) : Option Float :=
  let (negative, body) := splitSign (trim s.toList)
  let magnitude := (named? body).or (readPlain? body)
  magnitude.map fun x => if negative then -x else x

end Facet.Text
