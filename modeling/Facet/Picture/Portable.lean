import Facet.Image.Samples

/-!
# Portable pictures

A portable picture is data that begins with a `P` and a digit. The digit says whether the picture is
black and white, gray or coloured, and whether its samples are written as numbers or packed into
bytes. The width, the height and the greatest value follow as numbers, with blanks and comments
between them, and then the samples, row by row. A colour is given red first, and kept blue first.
-/

namespace Facet.Portable

/-- What the samples of a picture are. -/
inductive Kind where
  /-- Bits, of which ones are black. -/
  | bits
  /-- Levels of gray. -/
  | gray
  /-- The three parts of colours. -/
  | colour
deriving Repr, DecidableEq

/-- What is said of a picture before its samples. -/
structure Header where
  /-- What the samples are. -/
  kind : Kind
  /-- Whether they are packed into bytes. -/
  packed : Bool
  /-- The number of columns. -/
  cols : Nat
  /-- The number of rows. -/
  rows : Nat
  /-- The greatest value of a sample. -/
  greatest : Nat
deriving Repr, DecidableEq

/-! ## Numbers -/

/-- Whether a byte is a decimal digit. -/
def isDigit (b : UInt8) : Bool := 48 ≤ b && b ≤ 57

/-- Whether a byte is a blank or ends a line. -/
def isBlank (b : UInt8) : Bool := b = 32 || (9 ≤ b && b ≤ 13)

/-- The data from the first digit on. Before it there may be blanks, and comments from a number sign
to the end of a line. -/
def fromDigit (inComment : Bool) : List UInt8 → Option (List UInt8)
  | [] => none
  | b :: rest =>
    if inComment then fromDigit (b != 10 && b != 13) rest
    else if isDigit b then some (b :: rest)
    else if b = 35 then fromDigit true rest
    else if isBlank b then fromDigit false rest
    else none

/-- The greatest number that is read. -/
def limit : Nat := 2147483647

/-- Reads digits onto a number, and one more byte, which ends them. -/
def digits (n : Nat) : List UInt8 → Option (Nat × List UInt8)
  | [] => none
  | b :: rest =>
    if isDigit b then
      let longer := 10 * n + (b.toNat - 48)
      if longer ≤ limit then digits longer rest else none
    else some (n, rest)

/-- Reads a number. -/
def number (data : List UInt8) : Option (Nat × List UInt8) := (fromDigit false data).bind (digits 0)

/-- Reads a number of a single digit, after which the next may follow at once. -/
def digit (data : List UInt8) : Option (Nat × List UInt8) :=
  match fromDigit false data with
  | some (b :: rest) => some (b.toNat - 48, rest)
  | _ => none

/-- Reads so many numbers. -/
def numbers (next : List UInt8 → Option (Nat × List UInt8)) :
    Nat → List UInt8 → Option (List Nat)
  | 0, _ => some []
  | count + 1, data => do
    let (n, rest) ← next data
    return n :: (← numbers next count rest)

/-! ## Headers -/

/-- What the samples are by the digit after the `P`, and whether they are packed. -/
def kindOf? (mark : UInt8) : Option (Kind × Bool) :=
  [(49, Kind.bits, false), (50, .gray, false), (51, .colour, false), (52, .bits, true),
    (53, .gray, true), (54, .colour, true)].lookup mark

/-- Reads what is said before the samples. -/
def header? : List UInt8 → Option (Header × List UInt8)
  | letter :: mark :: blank :: rest => do
    let (kind, packed) ← kindOf? mark
    if letter != 80 || !isBlank blank then none
    let (cols, rest) ← number rest
    let (rows, rest) ← number rest
    let (greatest, rest) ← if kind = .bits then some (1, rest) else number rest
    if cols = 0 ∨ rows = 0 ∨ greatest = 0 ∨ 65535 < greatest then none
    return (⟨kind, packed, cols, rows, greatest⟩, rest)
  | _ => none

namespace Header

/-- The greatest width and height of a picture. -/
def sideLimit : Nat := Nat.pow 2 20

/-- The greatest number of pixels of a picture. -/
def areaLimit : Nat := Nat.pow 2 30

/-- Whether a picture is too large to be read. -/
def isTooLarge (h : Header) : Bool :=
  sideLimit < h.cols || sideLimit < h.rows || areaLimit < h.cols * h.rows

/-- The number of samples at each pixel. -/
def channels (h : Header) : Nat := if h.kind = .colour then 3 else 1

/-- Whether samples take two bytes. -/
def isWide (h : Header) : Bool := 255 < h.greatest

/-- The lengths of the axes. -/
def shape (h : Header) : List Nat :=
  if h.kind = .colour then [h.rows, h.cols, 3] else [h.rows, h.cols]

/-! ## Samples -/

/-- The level of a sample that is written as a number. One byte is used in full, whatever the
greatest value, and two bytes hold the number itself. -/
def level (h : Header) (n : Nat) : Nat :=
  let n := min n h.greatest
  match h.kind with
  | .bits => 255 * (1 - n)
  | _ => if h.isWide then n else n * 255 / h.greatest

/-- The number of bytes of a packed row. -/
def rowSize (h : Header) : Nat :=
  match h.kind with
  | .bits => (h.cols + 7) / 8
  | _ => h.cols * h.channels * (if h.isWide then 2 else 1)

/-- The bits of a byte, the highest first. -/
def bitsOf (b : UInt8) : List Nat := (List.range 8).map fun i => b.toNat / Nat.pow 2 (7 - i) % 2

/-- The numbers of two bytes each, the highest first. -/
def pairs : List UInt8 → List Nat
  | high :: low :: rest => (256 * high.toNat + low.toNat) :: pairs rest
  | _ => []

/-- The levels of a packed row. -/
def unpack (h : Header) (row : List UInt8) : List Nat :=
  match h.kind with
  | .bits => ((row.flatMap bitsOf).take h.cols).map h.level
  | _ => if h.isWide then pairs row else row.map UInt8.toNat

/-- The levels of all samples in the order of the data. -/
def levels? (h : Header) (data : List UInt8) : Option (List Nat) :=
  if h.packed then
    if data.length < h.rows * h.rowSize then none
    else some ((List.range h.rows).flatMap fun r =>
      h.unpack ((data.drop (r * h.rowSize)).take h.rowSize))
  else
    let next := if h.kind = .bits then digit else number
    (numbers next (h.rows * h.cols * h.channels) data).map fun ns => ns.map h.level

/-- The parts of colours, blue first instead of red first. -/
def blueFirst {β : Type} : List β → List β
  | red :: green :: blue :: rest => blue :: green :: red :: blueFirst rest
  | rest => rest

/-- The samples of a picture. -/
def samples? (h : Header) (data : List UInt8) : Option (Samples Float) := do
  let levels ← h.levels? data
  let ordered := if h.kind = .colour then blueFirst levels else levels
  let array ← Tensor.ofList? h.shape (ordered.map fun (n : Nat) => Sample.whole n)
  return ⟨.integer false (if h.isWide then 16 else 8), array⟩

end Header

/-- Why data is not read as a picture. -/
inductive Refusal where
  /-- It is no picture, or only a part of one. -/
  | noPicture
  /-- The picture is too large. -/
  | tooLarge
deriving Repr, DecidableEq

/-- The picture in some data. -/
def read (data : List UInt8) : Except Refusal (Samples Float) :=
  match header? data with
  | none => .error .noPicture
  | some (h, rest) =>
    if h.isTooLarge then .error .tooLarge
    else
      match h.samples? rest with
      | some s => .ok s
      | none => .error .noPicture

end Facet.Portable
