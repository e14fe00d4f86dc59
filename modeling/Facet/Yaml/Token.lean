import Facet.Yaml.Scalar

/-!
# Tokens

A document is first cut into tokens. Outside brackets, indentation opens and closes collections, and
the tokens for that are made up where the indentation changes. That something is a key shows only
when its colon comes, so the place of every possible key is remembered until then, and the token
that announces the key is put in there. A possible key does not reach beyond its line.
-/

namespace Facet.Yaml

/-- The piece of a document that the grammar speaks of. -/
inductive Token where
  /-- The version that a document is written for. -/
  | version (major : Nat)
  /-- The handle that abbreviates a front part of tags. -/
  | handle (name lead : String)
  /-- Any other directive. -/
  | directive
  /-- The start of a document. -/
  | documentStart
  /-- The end of a document. -/
  | documentEnd
  /-- The end of everything. -/
  | streamEnd
  /-- An indented sequence begins. -/
  | blockSequence
  /-- An indented mapping begins. -/
  | blockMapping
  /-- An indented collection ends. -/
  | blockEnd
  /-- A bracket opens a sequence. -/
  | openSequence
  /-- A bracket closes a sequence. -/
  | closeSequence
  /-- A brace opens a mapping. -/
  | openMapping
  /-- A brace closes a mapping. -/
  | closeMapping
  /-- A dash introduces an item. -/
  | item
  /-- A comma separates two items. -/
  | comma
  /-- A key follows. -/
  | key
  /-- A value follows. -/
  | value
  /-- The node of that name once more. -/
  | alias_ (name : String)
  /-- A name for the node that follows. -/
  | anchor (name : String)
  /-- The tag of the node that follows; a handle abbreviates its front part. -/
  | tag (handle : Option String) (suffix : String)
  /-- A scalar; only a plain one may be anything but text. -/
  | scalar (text : String) (plain : Bool)
deriving Repr, DecidableEq

/-! ## Names and tags -/

/-- A name that is not empty, and the place behind it. -/
def name? (c : Cursor) : Option Scanned :=
  let (name, c) := c.span isNameChar
  if name.isEmpty then none else some (name, c)

/-- The name of an anchor or an alias. -/
def anchorName? (c : Cursor) : Option (String × Cursor) := do
  let (name, c) ← name? c
  if isBlank c.peek ∨ c.peek ∈ ['?', ':', ',', ']', '\x7d', '%', '@', '\x60'] then
    return (String.ofList name, c)
  else none

/-- A handle of tags: an exclamation mark, or a name between two of them. -/
def tagHandle? (c : Cursor) : Option Scanned := do
  if c.peek ≠ '!' then none
  else if c.peekAt 1 = ' ' then return (['!'], c.next)
  else
    let (name, c) := c.next.span isNameChar
    if c.peek = '!' then return ('!' :: name ++ ['!'], c.next) else none

/-- What may stand in a tag as it is. -/
def isTagChar (c : Char) : Bool := isNameChar c || ";/?:@&=+$,_.!~*'()[]".toList.contains c

/-- Bytes written in hexadecimal, each after a percent sign. -/
def percentBytes? : Nat → Cursor → Option (List UInt8 × Cursor)
  | 0, _ => none
  | fuel + 1, c =>
    if c.peek ≠ '%' then some ([], c)
    else do
      let digits := c.next.rest.take 2
      let code ← hexNumber? digits
      if digits.length ≠ 2 then none
      else
        let (more, c) ← percentBytes? fuel (c.forward 3)
        return (UInt8.ofNat code :: more, c)

/-- The text of a tag, in parts as they are and parts in hexadecimal. -/
def tagParts? : Nat → Cursor → Option Scanned
  | 0, _ => none
  | fuel + 1, c => do
    let (part, c) := c.span isTagChar
    if c.peek ≠ '%' then return (part, c)
    else
      let (bytes, c) ← percentBytes? (c.rest.length + 1) c
      let text ← String.fromUTF8? (ByteArray.mk bytes.toArray)
      let (more, c) ← tagParts? fuel c
      return (part ++ text.toList ++ more, c)

/-- The text of a tag, which is not empty. -/
def tagText? (c : Cursor) : Option (String × Cursor) := do
  let (text, c) ← tagParts? (c.rest.length + 1) c
  if text.isEmpty then none else return (String.ofList text, c)

/-- A tag in angle brackets, alone, after a handle, or after a single mark. -/
def tagBody? (c : Cursor) : Option (Token × Cursor) := do
  if c.peekAt 1 = '<' then
    let (suffix, c) ← tagText? (c.forward 2)
    if c.peek = '>' then return (.tag none suffix, c.next) else none
  else if isBlank (c.peekAt 1) then return (.tag none "!", c.next)
  else
    let word := c.next.takeWhile fun ch => !isGap ch
    let (handle, c) ← if word.contains '!' then tagHandle? c else some (['!'], c.next)
    let (suffix, c) ← tagText? c
    return (.tag (some (String.ofList handle)) suffix, c)

/-- A tag, followed by a gap. -/
def tag? (c : Cursor) : Option (Token × Cursor) := do
  let (token, c) ← tagBody? c
  if isGap c.peek then return (token, c) else none

/-! ## Directives -/

/-- A number, and the place behind it. -/
def number? (c : Cursor) : Option (Nat × Cursor) :=
  let (digits, c) := c.span isDigit
  if digits.isEmpty then none
  else some (digits.foldl (fun n d => 10 * n + (d.toNat - 48)) 0, c)

/-- The version in a directive. -/
def versionDirective? (c : Cursor) : Option (Token × Cursor) := do
  let (major, c) ← number? (c.dropWhile (· = ' '))
  if c.peek ≠ '.' then none
  else
    let (_, c) ← number? c.next
    if isGap c.peek then return (.version major, c) else none

/-- The handle in a directive, and what it stands for. -/
def handleDirective? (c : Cursor) : Option (Token × Cursor) := do
  let (handle, c) ← tagHandle? (c.dropWhile (· = ' '))
  if c.peek ≠ ' ' then none
  else
    let (lead, c) ← tagText? (c.dropWhile (· = ' '))
    if isGap c.peek then return (.handle (String.ofList handle) lead, c) else none

/-- A directive, up to the end of its line. -/
def directive? (c : Cursor) : Option (Token × Cursor) := do
  let (name, c) ← name? c.next
  if !isGap c.peek then none
  else
    let (token, c) ←
      match String.ofList name with
      | "YAML" => versionDirective? c
      | "TAG" => handleDirective? c
      | _ => some (.directive, c.dropWhile fun ch => !isLineEnd ch)
    let c ← endOfLine? c
    return (token, c)

/-! ## Cutting a document into tokens -/

/-- A key whose colon has not come yet. -/
structure PossibleKey where
  /-- How many brackets are open around it. -/
  level : Nat
  /-- How many tokens stand before it. -/
  place : Nat
  /-- Whether nothing but a key can stand there. -/
  required : Bool
  /-- The place where it begins. -/
  cursor : Cursor

/-- A document that is cut up to some place. -/
structure Lexer where
  /-- The place. -/
  cursor : Cursor
  /-- The tokens before it. -/
  tokens : Array Token
  /-- How many brackets are open. -/
  level : Nat
  /-- The column of the innermost indented collection; none lies left of the first. -/
  indent : Int
  /-- The columns of the collections around it. -/
  outer : List Int
  /-- Whether a key may begin here. -/
  mayBeKey : Bool
  /-- The keys whose colon has not come yet, at most one for each level. -/
  keys : List PossibleKey
  /-- Whether the document is cut to its end. -/
  done : Bool

/-- Tokens with one more put in at a place. -/
def insertAt (tokens : Array Token) (place : Nat) (token : Token) : Array Token :=
  tokens.extract 0 place ++ #[token] ++ tokens.extract place tokens.size

namespace Lexer

/-- A document that is not cut yet. -/
def ofText (cs : List Char) : Lexer :=
  ⟨.ofText cs, #[], 0, -1, [], true, [], false⟩

/-- Adds a token, and moves to the place behind it. -/
def emit (l : Lexer) (token : Token) (c : Cursor) : Lexer :=
  { l with tokens := l.tokens.push token, cursor := c }

/-- Moves to the next token. A line break outside brackets allows a key. -/
def skipGaps : Nat → Lexer → Lexer
  | 0, l => l
  | fuel + 1, l =>
    let c := l.cursor
    let c := if c.index = 0 && c.peek = byteOrderMark then c.next else c
    let c := c.dropWhile (· = ' ')
    let c := if c.peek = '#' then c.dropWhile fun ch => !isLineEnd ch else c
    match c.lineBreak? with
    | none => { l with cursor := c }
    | some (_, c) => skipGaps fuel { l with cursor := c, mayBeKey := l.level = 0 || l.mayBeKey }

/-- Forgets the keys whose colon comes too late; fails if one of them had to be a key. -/
def dropStaleKeys? (l : Lexer) : Option Lexer :=
  let stale (k : PossibleKey) : Bool :=
    k.cursor.line != l.cursor.line || 1024 < l.cursor.index - k.cursor.index
  if l.keys.any fun k => stale k && k.required then none
  else some { l with keys := l.keys.filter fun k => !stale k }

/-- Forgets the possible key at this level; fails if it had to be a key. -/
def dropKey? (l : Lexer) : Option Lexer :=
  if l.keys.any fun k => k.level = l.level && k.required then none
  else some { l with keys := l.keys.filter fun k => k.level != l.level }

/-- Remembers a possible key that begins here. -/
def saveKey? (l : Lexer) : Option Lexer :=
  if l.mayBeKey then do
    let l ← l.dropKey?
    let required := l.level = 0 && l.indent = l.cursor.column
    return { l with keys := ⟨l.level, l.tokens.size, required, l.cursor⟩ :: l.keys }
  else some l

/-- Closes the collections that are indented further than a column. -/
def unwind (l : Lexer) (column : Int) : Lexer :=
  if l.level ≠ 0 then l
  else
    let closed := (l.indent :: l.outer).takeWhile (column < ·)
    let kept := (l.indent :: l.outer).drop closed.length
    { l with
      indent := kept.headD (-1)
      outer := kept.tail
      tokens := l.tokens ++ Array.replicate closed.length Token.blockEnd }

/-- Opens a collection at a column, unless one is open there; its token is put in at a place. -/
def openAt (l : Lexer) (column : Nat) (token : Token) (place : Nat) : Lexer :=
  if l.indent < column then
    { l with
      indent := column
      outer := l.indent :: l.outer
      tokens := insertAt l.tokens place token }
  else l

/-- A token that ends all that is indented. -/
def boundary? (l : Lexer) (token : Token) (c : Cursor) : Option Lexer := do
  let l ← (l.unwind (-1)).dropKey?
  return { l with mayBeKey := false }.emit token c

/-- The end of the document. -/
def finish? (l : Lexer) : Option Lexer := do
  let l ← l.boundary? .streamEnd l.cursor
  return { l with done := true, keys := [] }

/-- A bracket that opens a collection. -/
def openBracket? (l : Lexer) (token : Token) : Option Lexer := do
  let l ← l.saveKey?
  return { l with level := l.level + 1, mayBeKey := true }.emit token l.cursor.next

/-- A bracket that closes a collection. One that closes nothing fits no grammar. -/
def closeBracket? (l : Lexer) (token : Token) : Option Lexer := do
  let l ← l.dropKey?
  if l.level = 0 then none
  else return { l with level := l.level - 1, mayBeKey := false }.emit token l.cursor.next

/-- A comma. -/
def comma? (l : Lexer) : Option Lexer := do
  let l ← { l with mayBeKey := true }.dropKey?
  return l.emit .comma l.cursor.next

/-- A dash before an item. -/
def item? (l : Lexer) : Option Lexer := do
  if l.level = 0 ∧ !l.mayBeKey then none
  else
    let l := if l.level = 0 then l.openAt l.cursor.column .blockSequence l.tokens.size else l
    let l ← { l with mayBeKey := true }.dropKey?
    return l.emit .item l.cursor.next

/-- A question mark before a key. -/
def key? (l : Lexer) : Option Lexer := do
  if l.level = 0 ∧ !l.mayBeKey then none
  else
    let l := if l.level = 0 then l.openAt l.cursor.column .blockMapping l.tokens.size else l
    let l ← { l with mayBeKey := l.level = 0 }.dropKey?
    return l.emit .key l.cursor.next

/-- A colon before a value. What stood before it on this level is the key, if it could be one. -/
def value? (l : Lexer) : Option Lexer := do
  match l.keys.find? fun k => k.level = l.level with
  | some k =>
    let l := { l with
      keys := l.keys.filter fun other => other.level != l.level
      tokens := insertAt l.tokens k.place .key }
    let l := if l.level = 0 then l.openAt k.cursor.column .blockMapping k.place else l
    return { l with mayBeKey := false }.emit .value l.cursor.next
  | none =>
    if l.level = 0 ∧ !l.mayBeKey then none
    else
      let l := if l.level = 0 then l.openAt l.cursor.column .blockMapping l.tokens.size else l
      let l ← { l with mayBeKey := l.level = 0 }.dropKey?
      return l.emit .value l.cursor.next

/-- A token that may be a key, or part of one. -/
def keyPart (l : Lexer) (read : Cursor → Read (Token × Cursor)) : Read Lexer := do
  let l ← require l.saveKey?
  let (token, c) ← read l.cursor
  return { l with mayBeKey := false }.emit token c

/-- A block. -/
def block? (l : Lexer) (folded : Bool) : Option Lexer := do
  let l ← { l with mayBeKey := true }.dropKey?
  let (text, c) ← Yaml.block? folded (max 1 (l.indent + 1)).toNat l.cursor.next
  return l.emit (.scalar (String.ofList text) false) c

/-- A plain scalar. A key may follow once it has ended with a line. -/
def plain? (l : Lexer) : Option Lexer := do
  let l ← l.saveKey?
  let p := plain (l.level != 0) (l.indent + 1).toNat l.cursor
  return { l with mayBeKey := p.broken }.emit (.scalar (String.ofList p.text) true) p.cursor

/-- Whether a plain scalar can begin here. -/
def plainStarts (l : Lexer) : Bool :=
  let ch := l.cursor.peek
  let follows := !isBlank (l.cursor.peekAt 1)
  !(isBlank ch || "-?:,[]\x7b\x7d#&*!|>'\"%@\x60".toList.contains ch)
    || (follows && (ch = '-' || (l.level = 0 && (ch = '?' || ch = ':'))))

/-- Cuts off a token that is neither at the end nor a mark nor a directive. -/
def content (l : Lexer) : Read Lexer :=
  let c := l.cursor
  let ch := c.peek
  let follows := isBlank (c.peekAt 1)
  if ch = '[' then require (l.openBracket? .openSequence)
  else if ch = '\x7b' then require (l.openBracket? .openMapping)
  else if ch = ']' then require (l.closeBracket? .closeSequence)
  else if ch = '\x7d' then require (l.closeBracket? .closeMapping)
  else if ch = ',' then require l.comma?
  else if ch = '-' ∧ follows then require l.item?
  else if ch = '?' ∧ (l.level ≠ 0 ∨ follows) then require l.key?
  else if ch = ':' ∧ (l.level ≠ 0 ∨ follows) then require l.value?
  else if ch = '*' then
    l.keyPart fun c => require ((anchorName? c.next).map fun (name, c) => (.alias_ name, c))
  else if ch = '&' then
    l.keyPart fun c => require ((anchorName? c.next).map fun (name, c) => (.anchor name, c))
  else if ch = '!' then l.keyPart fun c => require (tag? c)
  else if (ch = '|' ∨ ch = '>') ∧ l.level = 0 then require (l.block? (ch = '>'))
  else if ch = '\'' ∨ ch = '"' then
    l.keyPart fun c => (quoted c).map fun (text, c) => (.scalar (String.ofList text) false, c)
  else if l.plainStarts then require l.plain?
  else .error .document

/-- Cuts off the next token. -/
def next (l : Lexer) : Read Lexer := do
  let l ← require (skipGaps (l.cursor.rest.length + 1) l).dropStaleKeys?
  let c := l.cursor
  let l := l.unwind c.column
  if c.peek = endMark then require l.finish?
  else if c.peek = '%' ∧ c.column = 0 then
    let (token, after) ← require (directive? c)
    require (l.boundary? token after)
  else if c.column = 0 ∧ c.atDocumentMark then
    require (l.boundary? (if c.peek = '-' then .documentStart else .documentEnd) (c.forward 3))
  else l.content

/-- Cuts off tokens up to the end; every round but the last moves on. -/
def run : Nat → Lexer → Read (Array Token)
  | 0, _ => .error .document
  | fuel + 1, l => if l.done then .ok l.tokens else do run fuel (← l.next)

end Lexer

/-- The tokens of a document, the end included. -/
def tokens (cs : List Char) : Read (List Token) :=
  if cs.all isAllowed then (Lexer.run (cs.length + 2) (.ofText cs)).map Array.toList
  else .error .document

end Facet.Yaml
