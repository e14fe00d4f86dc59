import Facet.Yaml.Token

/-!
# Nodes

The tokens of a document make up a tree of scalars, sequences and mappings. A node may be given a
name, which must be new, and further on the name stands for the same node. What is left out counts
as an empty plain scalar. Every reader takes tokens from the front of a list and returns a node with
the tokens behind it; it fails where the grammar allows no such token.
-/

namespace Facet.Yaml

/-- The tag that a node was given, in full. -/
inductive Tag where
  /-- None: the node decides by itself. -/
  | none
  /-- None, but the scalar is no plain one and so it is text. -/
  | text
  /-- A tag of the document's. -/
  | named (name : String)
deriving Repr, DecidableEq

/-- A node of a document. -/
inductive Node where
  /-- A scalar. -/
  | scalar (tag : Tag) (text : String)
  /-- A sequence of nodes. -/
  | sequence (tag : Tag) (items : List Node)
  /-- A mapping from nodes to nodes. -/
  | mapping (tag : Tag) (entries : List (Node × Node))

/-- The node that stands where one is left out. -/
def Node.missing : Node := .scalar .none ""

/-- What nodes depend on besides their tokens. -/
structure Names where
  /-- What the handles of tags stand for. -/
  handles : List (String × String)
  /-- The nodes that were given a name. -/
  anchors : List (String × Node)

/-- A node, the tokens behind it, and the names with those that it brings. -/
abbrev Parsed (β : Type) := β × List Token × Names

/-- What is said of a node before it begins. -/
structure Properties where
  /-- The name that it is given. -/
  anchor : Option String
  /-- Its tag. -/
  tag : Option (Option String × String)

/-- A name and a tag in either order, each of which may be missing. -/
def Properties.read : List Token → Properties × List Token
  | .anchor a :: .tag h s :: rest => (⟨some a, some (h, s)⟩, rest)
  | .anchor a :: rest => (⟨some a, none⟩, rest)
  | .tag h s :: .anchor a :: rest => (⟨some a, some (h, s)⟩, rest)
  | .tag h s :: rest => (⟨none, some (h, s)⟩, rest)
  | rest => (⟨none, none⟩, rest)

/-- The tag in full; a handle has to be known. -/
def Properties.tag? (p : Properties) (names : Names) : Option (Option String) :=
  match p.tag with
  | none => some none
  | some (none, suffix) => some (some suffix)
  | some (some handle, suffix) =>
    (names.handles.lookup handle).map fun lead => some (lead ++ suffix)

/-- The tag of a collection. -/
def collectionTag (tag : Option String) : Tag :=
  match tag with
  | none | some "!" => .none
  | some name => .named name

/-- The tag of a scalar. The tag of a single mark makes any scalar a plain one. -/
def scalarTag (tag : Option String) (plain : Bool) : Tag :=
  match tag with
  | none => if plain then .none else .text
  | some "!" => .none
  | some name => .named name

/-- The kinds of nodes that may stand at a place. -/
inductive Place where
  /-- Within brackets. -/
  | flow
  /-- Outside brackets. -/
  | block
  /-- Outside brackets in a mapping, where a sequence need not be indented. -/
  | entry
deriving DecidableEq

/-- What stands for a node while it is being read: a collection of its kind that is still empty. A
collection that holds itself has no end, so it is never shown, and only its kind matters. -/
def Node.unread (tag : Option String) : List Token → Node
  | .openMapping :: _ | .blockMapping :: _ => .mapping (collectionTag tag) []
  | .openSequence :: _ | .blockSequence :: _ | .item :: _ => .sequence (collectionTag tag) []
  | _ => Node.missing

/-- Gives a node a name. -/
def Names.define (names : Names) (anchor : Option String) (node : Node) : Names :=
  match anchor with
  | none => names
  | some a => { names with anchors := (a, node) :: names.anchors }

mutual

/-- A node. -/
def node? : Nat → Place → List Token → Names → Option (Parsed Node)
  | 0, _, _, _ => none
  | fuel + 1, place, tokens, names =>
    match tokens with
    | .alias_ a :: rest => do
      let node ← names.anchors.lookup a
      return (node, rest, names)
    | tokens => do
      let (properties, rest) := Properties.read tokens
      let tag ← properties.tag? names
      let anchor := properties.anchor
      if anchor.any fun a => (names.anchors.lookup a).isSome then none
      else
        let (node, rest, names) ← content? fuel place tag (anchor.isSome || tag.isSome) rest
          (names.define anchor (.unread tag rest))
        return (node, rest, names.define anchor node)

/-- What a node consists of, after its name and its tag. -/
def content? : Nat → Place → Option String → Bool → List Token → Names → Option (Parsed Node)
  | 0, _, _, _, _, _ => none
  | fuel + 1, place, tag, named, tokens, names =>
    let collection {β : Type} (make : Tag → β → Node) (read : Option (Parsed β)) :
        Option (Parsed Node) :=
      read.map fun (b, rest, names) => (make (collectionTag tag) b, rest, names)
    match place, tokens with
    | .entry, .item :: _ => collection .sequence (looseItems? fuel tokens names)
    | _, .scalar text plain :: rest => some (.scalar (scalarTag tag plain) text, rest, names)
    | _, .openSequence :: rest => collection .sequence (flowItems? fuel true rest names)
    | _, .openMapping :: rest => collection .mapping (flowEntries? fuel true rest names)
    | .block, .blockSequence :: rest | .entry, .blockSequence :: rest =>
      collection .sequence (blockItems? fuel rest names)
    | .block, .blockMapping :: rest | .entry, .blockMapping :: rest =>
      collection .mapping (blockEntries? fuel rest names)
    | _, _ => if named then some (.scalar (scalarTag tag true) "", tokens, names) else none

/-- The items of an indented sequence, up to its end. -/
def blockItems? : Nat → List Token → Names → Option (Parsed (List Node))
  | 0, _, _ => none
  | fuel + 1, tokens, names =>
    match tokens with
    | .item :: rest => do
      let (node, rest, names) ← orMissing? fuel .block rest names fun
        | .item | .blockEnd => true
        | _ => false
      let (more, rest, names) ← blockItems? fuel rest names
      return (node :: more, rest, names)
    | .blockEnd :: rest => some ([], rest, names)
    | _ => none

/-- The items of a sequence in a mapping that is not indented; whatever is no item ends it. -/
def looseItems? : Nat → List Token → Names → Option (Parsed (List Node))
  | 0, _, _ => none
  | fuel + 1, tokens, names =>
    match tokens with
    | .item :: rest => do
      let (node, rest, names) ← orMissing? fuel .block rest names fun
        | .item | .key | .value | .blockEnd => true
        | _ => false
      let (more, rest, names) ← looseItems? fuel rest names
      return (node :: more, rest, names)
    | _ => some ([], tokens, names)

/-- The entries of an indented mapping, up to its end. -/
def blockEntries? : Nat → List Token → Names → Option (Parsed (List (Node × Node)))
  | 0, _, _ => none
  | fuel + 1, tokens, names =>
    let ends : Token → Bool
      | .key | .value | .blockEnd => true
      | _ => false
    match tokens with
    | .key :: rest => do
      let (key, rest, names) ← orMissing? fuel .entry rest names ends
      let (value, rest, names) ← valueAfter? fuel .entry rest names ends
      let (more, rest, names) ← blockEntries? fuel rest names
      return ((key, value) :: more, rest, names)
    | .blockEnd :: rest => some ([], rest, names)
    | _ => none

/-- The items of a sequence in brackets. A pair among them is a mapping of its own. -/
def flowItems? : Nat → Bool → List Token → Names → Option (Parsed (List Node))
  | 0, _, _, _ => none
  | fuel + 1, first, tokens, names =>
    let ends : Token → Bool
      | .comma | .closeSequence => true
      | _ => false
    match first, tokens with
    | _, .closeSequence :: rest => some ([], rest, names)
    | false, .comma :: .closeSequence :: rest => some ([], rest, names)
    | false, .comma :: rest => flowItems? fuel true rest names
    | false, _ => none
    | true, .key :: rest => do
      let (key, rest, names) ← orMissing? fuel .flow rest names fun t =>
        ends t || t = .value
      let (value, rest, names) ← valueAfter? fuel .flow rest names ends
      let (more, rest, names) ← flowItems? fuel false rest names
      return (.mapping .none [(key, value)] :: more, rest, names)
    | true, _ => do
      let (node, rest, names) ← node? fuel .flow tokens names
      let (more, rest, names) ← flowItems? fuel false rest names
      return (node :: more, rest, names)

/-- The entries of a mapping in braces. A node without a colon is a key without a value. -/
def flowEntries? : Nat → Bool → List Token → Names → Option (Parsed (List (Node × Node)))
  | 0, _, _, _ => none
  | fuel + 1, first, tokens, names =>
    let ends : Token → Bool
      | .comma | .closeMapping => true
      | _ => false
    match first, tokens with
    | _, .closeMapping :: rest => some ([], rest, names)
    | false, .comma :: .closeMapping :: rest => some ([], rest, names)
    | false, .comma :: rest => flowEntries? fuel true rest names
    | false, _ => none
    | true, .key :: rest => do
      let (key, rest, names) ← orMissing? fuel .flow rest names fun t =>
        ends t || t = .value
      let (value, rest, names) ← valueAfter? fuel .flow rest names ends
      let (more, rest, names) ← flowEntries? fuel false rest names
      return ((key, value) :: more, rest, names)
    | true, _ => do
      let (key, rest, names) ← node? fuel .flow tokens names
      let (more, rest, names) ← flowEntries? fuel false rest names
      return ((key, Node.missing) :: more, rest, names)

/-- A node, unless it is left out: that is so before the tokens that pass a test. -/
def orMissing? : Nat → Place → List Token → Names → (Token → Bool) → Option (Parsed Node)
  | 0, _, _, _, _ => none
  | fuel + 1, place, tokens, names, ends =>
    if tokens.head?.any ends then some (Node.missing, tokens, names)
    else node? fuel place tokens names

/-- The value of a key. It may be left out, with its colon or without. -/
def valueAfter? : Nat → Place → List Token → Names → (Token → Bool) → Option (Parsed Node)
  | 0, _, _, _, _ => none
  | fuel + 1, place, tokens, names, ends =>
    match tokens with
    | .value :: rest => orMissing? fuel place rest names ends
    | _ => some (Node.missing, tokens, names)

end

/-! ## Documents -/

/-- The handles that are known without being declared. -/
def standardHandles : List (String × String) := [("!", "!"), ("!!", "tag:yaml.org,2002:")]

/-- The directives before a document. The version may be given once, and no handle twice. -/
def directives? : List Token → Bool → List (String × String) →
    Option (List (String × String) × List Token)
  | .version major :: rest, versioned, handles =>
    if versioned || major != 1 then none else directives? rest true handles
  | .handle name lead :: rest, versioned, handles =>
    if (handles.lookup name).isSome then none
    else directives? rest versioned ((name, lead) :: handles)
  | .directive :: rest, versioned, handles => directives? rest versioned handles
  | rest, _, handles => some (handles ++ standardHandles, rest)

/-- Whether a token cannot begin the content of a document. -/
def Token.isBoundary : Token → Bool
  | .version _ | .handle .. | .directive | .documentStart | .documentEnd | .streamEnd => true
  | _ => false

/-- The node of a document that is opened by a mark, behind its directives. -/
def explicit? (fuel : Nat) (tokens : List Token) : Option (Node × List Token) := do
  let (handles, rest) ← directives? tokens false []
  match rest with
  | .documentStart :: rest =>
    if rest.head?.any Token.isBoundary then return (Node.missing, rest)
    else
      let (node, rest, _) ← node? fuel .block rest ⟨handles, []⟩
      return (node, rest)
  | _ => none

/-- Marks that end a document, one or more of them. -/
def skipEnds : List Token → List Token
  | .documentEnd :: rest => skipEnds rest
  | rest => rest

/-- The node of the only document, or none if there is no document at all. -/
def document? (tokens : List Token) : Option (Option Node) := do
  let fuel := 6 * tokens.length + 8
  match tokens with
  | [.streamEnd] => return none
  | .version _ :: _ | .handle .. :: _ | .directive :: _ | .documentStart :: _ =>
    let (node, rest) ← explicit? fuel tokens
    if skipEnds rest = [.streamEnd] then return some node else none
  | _ =>
    let (node, rest, _) ← node? fuel .block tokens ⟨standardHandles, []⟩
    if skipEnds rest = [.streamEnd] then return some node else none

end Facet.Yaml
