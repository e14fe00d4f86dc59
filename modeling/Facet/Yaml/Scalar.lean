import Facet.Fault
import Facet.Word
import Facet.Yaml.Cursor

/-!
# The text of scalars

Scalars are written plain, in quotes or as blocks. In the first two a line break between words is a
space, and further line breaks stay; in a block the author chooses. All readers take the place where
the scalar begins and return its text with the place behind it, or nothing if it is not well formed.
A scalar in quotes may also name a character that does not exist, and then that is its fault.
Each round of a reader moves on, so the number of characters that are left bounds the rounds.
-/

namespace Facet.Yaml

/-- Something that was read from a document, or the fault for which it cannot be read. -/
abbrev Read (β : Type) := Except Fault β

/-- What was read, if the document is well formed. -/
def require {β : Type} : Option β → Read β
  | some b => .ok b
  | none => .error .document

/-- Text that was read, and the place behind it. -/
abbrev Scanned := List Char × Cursor

/-- A line break that joins two lines, followed by further breaks: alone it is a space. -/
def foldBreak (first : Char) (others : List Char) : List Char :=
  if first ≠ '\n' then first :: others else if others.isEmpty then [' '] else others

/-! ## In quotes -/

/-- Line breaks within quotes, with the blanks around them. A mark between documents must not stand
there. -/
def quotedBreaks? : Nat → Cursor → Option Scanned
  | 0, _ => none
  | fuel + 1, c =>
    if c.atDocumentMark then none
    else
      let c := c.dropWhile fun ch => ch = ' ' || ch = '\t'
      match c.lineBreak? with
      | none => some ([], c)
      | some (b, c) => (quotedBreaks? fuel c).map fun (more, c) => (b :: more, c)

/-- Blanks within quotes: they stay as they are unless the line ends there. -/
def quotedGap? (c : Cursor) : Option Scanned :=
  let (blanks, c) := c.span fun ch => ch = ' ' || ch = '\t'
  if c.peek = endMark then none
  else
    match c.lineBreak? with
    | none => some (blanks, c)
    | some (b, c) =>
      (quotedBreaks? (c.rest.length + 1) c).map fun (others, c) => (foldBreak b others, c)

/-- The character that a letter stands for after a backslash. -/
def escaped? (c : Char) : Option Nat :=
  [('0', 0x0), ('a', 0x7), ('b', 0x8), ('t', 0x9), ('\t', 0x9), ('n', 0xa), ('v', 0xb), ('f', 0xc),
    ('r', 0xd), ('e', 0x1b), (' ', 0x20), ('"', 0x22), ('\\', 0x5c), ('/', 0x2f), ('N', 0x85),
    ('_', 0xa0), ('L', 0x2028), ('P', 0x2029)].lookup c

/-- The number of hexadecimal digits that a letter calls for after a backslash. -/
def escapeWidth? (c : Char) : Option Nat := [('x', 2), ('u', 4), ('U', 8)].lookup c

/-- The value of a hexadecimal digit. -/
def hexValue? (c : Char) : Option Nat :=
  if isDigit c then some (c.toNat - 48)
  else if 'a' ≤ c ∧ c ≤ 'f' then some (c.toNat - 87)
  else if 'A' ≤ c ∧ c ≤ 'F' then some (c.toNat - 55)
  else none

/-- The number that hexadecimal digits spell. -/
def hexNumber? (cs : List Char) : Option Nat :=
  cs.foldlM (fun n c => (hexValue? c).map (16 * n + ·)) 0

/-- The character of a number, which has to fit in 32 bits with a sign before it is looked at
further. -/
def character (code : Nat) : Read Char :=
  if !Word.fitsSigned 32 code then .error (.argument .characterOverflow)
  else if 0x110000 ≤ code then .error (.argument .noCharacter)
  else .ok (Char.ofNat code)

/-- A character given after a backslash. A line break there joins the lines without a space. -/
def escape (c : Cursor) : Read Scanned :=
  match escaped? c.peek, escapeWidth? c.peek with
  | some code, _ => .ok ([Char.ofNat code], c.next)
  | none, some width => do
    let c := c.next
    let digits := c.rest.take width
    let code ← require (hexNumber? digits)
    if digits.length = width then return ([← character code], c.forward width)
    else throw .document
  | none, none => do
    let (_, c) ← require c.lineBreak?
    require (quotedBreaks? (c.rest.length + 1) c)

/-- Text within quotes up to the next blank or the closing quote. -/
def quotedWord (double : Bool) : Nat → Cursor → Read Scanned
  | 0, _ => .error .document
  | fuel + 1, c => do
    let (plain, c) := c.span fun ch => !(isBlank ch || ch = '\'' || ch = '"' || ch = '\\')
    let ch := c.peek
    if !double ∧ ch = '\'' ∧ c.peekAt 1 = '\'' then
      let (more, c) ← quotedWord double fuel (c.forward 2)
      return (plain ++ '\'' :: more, c)
    else if (double ∧ ch = '\'') ∨ (!double ∧ (ch = '"' ∨ ch = '\\')) then
      let (more, c) ← quotedWord double fuel c.next
      return (plain ++ ch :: more, c)
    else if double ∧ ch = '\\' then
      let (one, c) ← escape c.next
      let (more, c) ← quotedWord double fuel c
      return (plain ++ one ++ more, c)
    else return (plain, c)

/-- Words and gaps within quotes up to the closing quote. -/
def quotedRest (quote : Char) : Nat → Cursor → Read Scanned
  | 0, _ => .error .document
  | fuel + 1, c => do
    if c.peek = quote then return ([], c.next)
    else
      let (gap, c) ← require (quotedGap? c)
      let (word, c) ← quotedWord (quote = '"') (c.rest.length + 1) c
      let (more, c) ← quotedRest quote fuel c
      return (gap ++ word ++ more, c)

/-- A scalar in quotes. -/
def quoted (c : Cursor) : Read Scanned := do
  let quote := c.peek
  let c := c.next
  let (word, c) ← quotedWord (quote = '"') (c.rest.length + 1) c
  let (more, c) ← quotedRest quote (c.rest.length + 2) c
  return (word ++ more, c)

/-! ## Plain -/

/-- The length of the part of a plain scalar that lies in one line. Within brackets a scalar also
ends at a bracket, a comma or a question mark. -/
def plainLength (flow : Bool) : List Char → Nat
  | [] => 0
  | ch :: rest =>
    let next := rest.headD endMark
    let ends :=
      isBlank ch
        || (ch = ':' && (isBlank next || (flow && next ∈ [',', '[', ']', '\x7b', '\x7d'])))
        || (flow && ch ∈ [',', '?', '[', ']', '\x7b', '\x7d'])
    if ends then 0 else plainLength flow rest + 1

/-- What lies between two parts of a plain scalar. -/
structure PlainGap where
  /-- What stands for it in the text; nothing if the scalar ends here. -/
  text : List Char
  /-- Whether it holds a line break. -/
  broken : Bool
  /-- The place behind it. -/
  cursor : Cursor

/-- Spaces and line breaks after the first line break in a plain scalar, up to the next word or a
mark between documents, which is told apart. -/
def plainBreaks : Nat → Cursor → List Char × Cursor × Bool
  | 0, c => ([], c, false)
  | fuel + 1, c =>
    if c.peek = ' ' then plainBreaks fuel c.next
    else
      match c.lineBreak? with
      | none => ([], c, false)
      | some (b, c) =>
        if c.atDocumentMark then ([], c, true)
        else
          let (more, c, marked) := plainBreaks fuel c
          (b :: more, c, marked)

/-- The gap after one part of a plain scalar. -/
def plainGap (c : Cursor) : PlainGap :=
  let (spaces, c) := c.span (· = ' ')
  match c.lineBreak? with
  | none => ⟨spaces, false, c⟩
  | some (b, c) =>
    if c.atDocumentMark then ⟨[], true, c⟩
    else
      let (others, c, marked) := plainBreaks (c.rest.length + 1) c
      if marked then ⟨[], true, c⟩ else ⟨foldBreak b others, true, c⟩

/-- A plain scalar as far as it was read. -/
structure Plain where
  /-- The text. -/
  text : List Char
  /-- Whether the gap behind the last part holds a line break. -/
  broken : Bool
  /-- The place behind it. -/
  cursor : Cursor

/-- The parts of a plain scalar that follow a gap. Outside brackets they have to be indented. -/
def plainRest (flow : Bool) (indent : Nat) : Nat → List Char → Plain → Plain
  | 0, _, p => p
  | fuel + 1, gap, p =>
    let c := p.cursor
    let length := if c.peek = '#' then 0 else plainLength flow c.rest
    if length = 0 then p
    else
      let text := p.text ++ gap ++ c.rest.take length
      let next := plainGap (c.forward length)
      let p : Plain := ⟨text, next.broken, next.cursor⟩
      let left := !flow && next.cursor.column < indent
      if next.text.isEmpty || next.cursor.peek = '#' || left then p
      else plainRest flow indent fuel next.text p

/-- A plain scalar. -/
def plain (flow : Bool) (indent : Nat) (c : Cursor) : Plain :=
  plainRest flow indent (c.rest.length + 1) [] ⟨[], false, c⟩

/-! ## Blocks -/

/-- What becomes of the line breaks at the end of a block. -/
inductive Chomping where
  /-- One of them stays. -/
  | clip
  /-- None stays. -/
  | strip
  /-- All stay. -/
  | keep
deriving DecidableEq

/-- The chomping that a sign asks for. -/
def chomping? : Char → Option Chomping
  | '+' => some .keep
  | '-' => some .strip
  | _ => none

/-- The indentation that a digit asks for. -/
def increment? (c : Char) : Option Nat := if isDigit c then some (c.toNat - 48) else none

/-- A sign and a digit in either order, each of which may be missing. -/
def blockHeader? (c : Cursor) : Option (Chomping × Option Nat × Cursor) := do
  let (chomping, increment, c) : Option Chomping × Option Nat × Cursor :=
    match chomping? c.peek, increment? c.peek with
    | some k, _ =>
      match increment? c.next.peek with
      | some n => (some k, some n, c.forward 2)
      | none => (some k, none, c.next)
    | none, some n =>
      match chomping? c.next.peek with
      | some k => (some k, some n, c.forward 2)
      | none => (none, some n, c.next)
    | none, none => (none, none, c)
  if increment = some 0 ∨ !isGap c.peek then none
  else some (chomping.getD .clip, increment, c)

/-- The rest of a line, which may hold nothing but a comment. -/
def endOfLine? (c : Cursor) : Option Cursor :=
  let c := c.dropWhile (· = ' ')
  let c := if c.peek = '#' then c.dropWhile fun ch => !isLineEnd ch else c
  if isLineEnd c.peek then some c.skipBreak else none

/-- Empty lines at the start of a block, and the column of its first line that is not empty. -/
def blockStart : Nat → Cursor → Nat → List Char × Nat × Cursor
  | 0, c, column => ([], column, c)
  | fuel + 1, c, column =>
    if c.peek = ' ' then blockStart fuel c.next (max column c.next.column)
    else
      match c.lineBreak? with
      | none => ([], column, c)
      | some (b, c) =>
        let (more, column, c) := blockStart fuel c column
        (b :: more, column, c)

/-- Empty lines within a block, each indented at most as far as the block. -/
def blockBreaks (indent : Nat) : Nat → Cursor → Scanned
  | 0, c => ([], c)
  | fuel + 1, c =>
    let c := c.forward ((c.rest.take (indent - c.column)).takeWhile (· = ' ')).length
    match c.lineBreak? with
    | none => ([], c)
    | some (b, c) =>
      let (more, c) := blockBreaks indent fuel c
      (b :: more, c)

/-- The lines of a block. `breaks` are the empty lines before the next one. -/
def blockLines (folded : Bool) (chomping : Chomping) (indent : Nat) :
    Nat → List Char → Cursor → Scanned
  | 0, _, c => ([], c)
  | fuel + 1, breaks, c =>
    let open_ (c : Cursor) : Bool := c.column = indent && c.peek != endMark
    let indented (c : Cursor) : Bool := c.peek = ' ' || c.peek = '\t'
    if !open_ c then ([], c)
    else
      let wasIndented := indented c
      let (line, c) := c.span fun ch => !isLineEnd ch
      let (ending, c) : List Char × Cursor :=
        match c.lineBreak? with
        | some (b, c) => ([b], c)
        | none => ([], c)
      let (others, c) := blockBreaks indent (c.rest.length + 1) c
      if open_ c then
        let joint : List Char :=
          if folded && ending = ['\n'] && !wasIndented && !indented c then
            (if others.isEmpty then [' '] else [])
          else ending
        let (more, c) := blockLines folded chomping indent fuel others c
        (breaks ++ line ++ joint ++ more, c)
      else
        let tail := match chomping with
          | .clip => ending
          | .strip => []
          | .keep => ending ++ others
        (breaks ++ line ++ tail, c)

/-- A block without lines: of its empty lines only those stay that are asked for. -/
def emptyBlock (chomping : Chomping) (breaks : List Char) : List Char :=
  if chomping = .keep then breaks else []

/-- A block, after the character that introduces it. It is indented by at least `least` columns. -/
def block? (folded : Bool) (least : Nat) (c : Cursor) : Option Scanned := do
  let (chomping, increment, c) ← blockHeader? c
  let c ← endOfLine? c
  let fuel := c.rest.length + 1
  let (breaks, indent, c) : List Char × Nat × Cursor :=
    match increment with
    | none =>
      let (breaks, column, c) := blockStart fuel c 0
      (breaks, max least column, c)
    | some n =>
      let (breaks, c) := blockBreaks (least + n - 1) fuel c
      (breaks, least + n - 1, c)
  if c.column = indent && c.peek != endMark then
    return blockLines folded chomping indent fuel breaks c
  else return (emptyBlock chomping breaks, c)

end Facet.Yaml
