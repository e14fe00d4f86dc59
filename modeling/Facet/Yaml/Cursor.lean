/-!
# A place in a document

Indentation carries meaning in YAML, so the place in a document includes the column. The end of the
document is shown as the character zero, which no document may contain; thus tests for the end are
tests for a character like all others.
-/

namespace Facet.Yaml

/-- What ends a document, as a character. -/
def endMark : Char := Char.ofNat 0

/-- Line breaks. -/
def isBreak (c : Char) : Bool :=
  c = '\n' || c = '\r' || c = Char.ofNat 0x85 || c = Char.ofNat 0x2028 || c = Char.ofNat 0x2029

/-- A line break, or the end. -/
def isLineEnd (c : Char) : Bool := c = endMark || isBreak c

/-- A space, a line break or the end. -/
def isGap (c : Char) : Bool := c = ' ' || isLineEnd c

/-- A space, a tab, a line break or the end. -/
def isBlank (c : Char) : Bool := c = '\t' || isGap c

/-- A decimal digit. -/
def isDigit (c : Char) : Bool := '0' ≤ c && c ≤ '9'

/-- What may stand in the name of an anchor, a directive or a tag handle. -/
def isNameChar (c : Char) : Bool :=
  isDigit c || ('a' ≤ c && c ≤ 'z') || ('A' ≤ c && c ≤ 'Z') || c = '-' || c = '_'

/-- Characters that a document may contain. -/
def isAllowed (c : Char) : Bool :=
  let n := c.toNat
  n = 0x9 || n = 0xa || n = 0xd || (0x20 ≤ n && n ≤ 0x7e) || n = 0x85
    || (0xa0 ≤ n && n ≤ 0xfffd) || 0x10000 ≤ n

/-- The mark of byte order, which takes up no column. -/
def byteOrderMark : Char := Char.ofNat 0xfeff

/-- A place in a document. -/
structure Cursor where
  /-- What follows. -/
  rest : List Char
  /-- The number of characters before. -/
  index : Nat
  /-- The number of lines before. -/
  line : Nat
  /-- The number of columns before, in this line. -/
  column : Nat

namespace Cursor

/-- The start of a document. -/
def ofText (cs : List Char) : Cursor := ⟨cs, 0, 0, 0⟩

/-- The character at a distance. -/
def peekAt (c : Cursor) (n : Nat) : Char := (c.rest[n]?).getD endMark

/-- The next character. -/
def peek (c : Cursor) : Char := c.rest.headD endMark

/-- The place behind the next character. -/
def next (c : Cursor) : Cursor :=
  match c.rest with
  | [] => c
  | ch :: rest =>
    if isBreak ch then ⟨rest, c.index + 1, c.line + 1, 0⟩
    else if ch = byteOrderMark then ⟨rest, c.index + 1, c.line, c.column⟩
    else ⟨rest, c.index + 1, c.line, c.column + 1⟩

/-- The place behind the next `n` characters. -/
def forward (c : Cursor) : Nat → Cursor
  | 0 => c
  | n + 1 => c.next.forward n

/-- The characters from here on that pass a test, up to the first that does not. -/
def takeWhile (c : Cursor) (p : Char → Bool) : List Char := c.rest.takeWhile p

/-- The place behind the characters that pass a test. -/
def dropWhile (c : Cursor) (p : Char → Bool) : Cursor := c.forward (c.rest.takeWhile p).length

/-- The characters that pass a test, and the place behind them. -/
def span (c : Cursor) (p : Char → Bool) : List Char × Cursor := (c.takeWhile p, c.dropWhile p)

/-- A line break, with the place behind it: the two separators beyond ASCII stay what they are, and
all others become a line feed. -/
def lineBreak? (c : Cursor) : Option (Char × Cursor) :=
  let ch := c.peek
  if ch.toNat = 0x2028 ∨ ch.toNat = 0x2029 then some (ch, c.next)
  else if isBreak ch then some ('\n', c.next)
  else none

/-- The place behind a line break, if there is one. -/
def skipBreak (c : Cursor) : Cursor := (c.lineBreak?.map Prod.snd).getD c

/-- Whether a document ends or begins here, given that this is the start of a line. -/
def atDocumentMark (c : Cursor) : Bool :=
  (c.rest.take 3 = ['-', '-', '-'] || c.rest.take 3 = ['.', '.', '.']) && isBlank (c.peekAt 3)

end Cursor

end Facet.Yaml
