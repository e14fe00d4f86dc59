import Facet.Value.Number
import Facet.Yaml.Node
import Facet.Yaml.Plain

/-!
# Values of documents

A node becomes a value according to its tag, or, if it has none, according to its spelling. Mappings
under a merge key are spread out: their entries go in front of those of the mapping around them, so
that its own entries win.

Collections are filled one after the other, those nearer to the root first, and of those at one
depth the ones that come first. So of several faults in a document the one is reported that is met
first in this order.
-/

namespace Facet.Yaml

/-! ## Merging -/

/-- The kind of a scalar node that has no tag; nothing for all others. -/
def Node.kind? : Node → Option ScalarKind
  | .scalar .none text => some (ScalarKind.ofPlain text)
  | .scalar .text _ => some .text
  | .scalar (.named "tag:yaml.org,2002:merge") _ => some .merge
  | .scalar (.named "tag:yaml.org,2002:value") _ => some .value
  | _ => none

mutual

/-- Splits entries into those that are merged in and those of the mapping itself. A value key is
nothing but text. -/
def splitMerges : List (Node × Node) → Read (List (Node × Node) × List (Node × Node))
  | [] => .ok ([], [])
  | (key, value) :: rest =>
    match key.kind? with
    | some .merge => do
      let first ← value.merged
      let (merged, own) ← splitMerges rest
      return (first ++ merged, own)
    | some .value => do
      let (merged, own) ← splitMerges rest
      return (merged, (.scalar .text "=", value) :: own)
    | _ => do
      let (merged, own) ← splitMerges rest
      return (merged, (key, value) :: own)

/-- The entries that a node under a merge key stands for: those of one mapping, or of several. -/
def Node.merged : Node → Read (List (Node × Node))
  | .mapping _ entries => do
    let (merged, own) ← splitMerges entries
    return merged ++ own
  | .sequence _ items => mergedItems items
  | .scalar .. => .error .document

/-- The entries of the mappings in a sequence, those of later ones first. -/
def mergedItems : List Node → Read (List (Node × Node))
  | [] => .ok []
  | .mapping _ entries :: rest => do
    let (merged, own) ← splitMerges entries
    return (← mergedItems rest) ++ merged ++ own
  | _ => .error .document

end

/-- The entries of a mapping with its merge keys spread out. -/
def spread (entries : List (Node × Node)) : Read (List (Node × Node)) := do
  let (merged, own) ← splitMerges entries
  return merged ++ own

/-! ## Scalars -/

/-- The number that digits of a base spell. -/
def basedInt (base : Nat) (cs : List Char) : Read Int :=
  match Text.readBased? base (String.ofList cs) with
  | some n => .ok n
  | none => .error (.argument (.notIntText base (.text (String.ofList cs))))

/-- The number that decimal digits spell. -/
def decimalInt (s : String) : Read Int :=
  (Text.readInt s).mapError fun cause => .argument (Value.numeralFault (.text s) cause)

/-- The number that parts between colons spell in base sixty, the last one counting ones. Without a
colon there is only one part. -/
def sexagesimalInt (cs : List Char) : Read Int := do
  let parts ← ((String.ofList cs).splitOn ":").mapM decimalInt
  return parts.foldl (fun n d => 60 * n + d) 0

/-- A whole number. -/
def intOf (s : String) : Read Int := do
  let cs := s.toList.filter (· ≠ '_')
  let magnitude ←
    match unsigned cs with
    | [] => .error (.argument .emptyNumber)
    | ['0'] => .ok 0
    | '0' :: 'b' :: rest => basedInt 2 rest
    | '0' :: 'x' :: rest => basedInt 16 rest
    | '0' :: rest => basedInt 8 ('0' :: rest)
    | cs => sexagesimalInt cs
  return if cs.head? = some '-' then -magnitude else magnitude

/-- A decimal number, or the parts of one in base sixty. -/
def floatPart (s : String) : Read Float :=
  match Text.readFloat? s with
  | some x => .ok x
  | none => .error (.argument (.notFloatText (.text s)))

/-- The sum of parts in base sixty, the first one counting ones. Each part is multiplied by a power
of sixty, which has to be in the range of doubles. -/
def sexagesimalSum : Int → Float → List Float → Read Float
  | _, total, [] => .ok total
  | base, total, part :: rest => do
    let weight ← (Value.int base).toDouble.mapError .argument
    sexagesimalSum (60 * base) (total + part * weight) rest

/-- A decimal number. -/
def floatOf (s : String) : Read Float := do
  let cs := (s.toList.filter (· ≠ '_')).map Char.toLower
  let body := String.ofList (unsigned cs)
  let magnitude ←
    if cs.isEmpty then .error (.argument .emptyNumber)
    else if body = ".inf" then .ok (1 / 0)
    else if body = ".nan" then .ok (0 / 0)
    else if body.contains ':' then do
      let parts ← (body.splitOn ":").mapM floatPart
      sexagesimalSum 1 0 parts.reverse
    else floatPart body
  return if cs.head? = some '-' then -magnitude else magnitude

/-- A truth value. -/
def boolOf (s : String) : Read Bool :=
  if s.toLower ∈ ["yes", "true", "on"] then .ok true
  else if s.toLower ∈ ["no", "false", "off"] then .ok false
  else .error (.argument (.unknownWord s.toLower))

/-- A date or a time, which has to exist. -/
def timestampOf (s : String) : Read Value :=
  match timestamp? s.toList with
  | some (.date d) => (d.check.map Value.date).mapError fun cause => .argument (.calendar cause)
  | some (.moment m) => (m.check.map Value.moment).mapError fun cause => .argument (.calendar cause)
  | _ => .error (.member (.missing Value.null.kind "groupdict"))

/-- The value of a scalar of a kind. Merge and value keys have none outside a mapping. -/
def scalarValue (kind : ScalarKind) (s : String) : Read Value :=
  match kind with
  | .null => .ok .null
  | .bool => return .bool (← boolOf s)
  | .int => return .int (← intOf s)
  | .float => return .float (← floatOf s)
  | .timestamp => timestampOf s
  | .text => .ok (.text s)
  | .merge | .value => .error .document

/-- The kind of scalars that a tag calls for. -/
def kindOfTag? (name : String) : Option ScalarKind :=
  [("tag:yaml.org,2002:null", .null), ("tag:yaml.org,2002:bool", .bool),
    ("tag:yaml.org,2002:int", .int), ("tag:yaml.org,2002:float", .float),
    ("tag:yaml.org,2002:timestamp", .timestamp), ("tag:yaml.org,2002:str", .text)].lookup name

/-! ## Nodes -/

/-- The tags of collections. -/
def collectionTags : List String := ["tag:yaml.org,2002:seq", "tag:yaml.org,2002:map"]

/-- Whether a collection of the given kind may have a tag. -/
def Tag.allows (standard : String) : Tag → Bool
  | .none | .text => true
  | .named name => name = standard

/-- The value of a node that is no collection. -/
def scalarOf (tag : Tag) (text : String) : Read Value :=
  match tag with
  | .none => scalarValue (ScalarKind.ofPlain text) text
  | .text => .ok (.text text)
  | .named name =>
    match kindOfTag? name with
    | some kind => scalarValue kind text
    | none => .error .document

/-- The entries of a mapping, added to those that were read before. A key that is there already
keeps its spelling and gets the new value. -/
def gather (entries : List (Value × Value)) : List (Value × Value) :=
  entries.foldl (fun gathered (key, value) => Value.insert key value gathered) []

/-- The value of a node that is nested at most so deep. -/
def Node.value : Nat → Node → Read Value
  | _, .scalar tag text => scalarOf tag text
  | 0, _ => .error .document
  | depth + 1, .sequence tag items => do
    if tag.allows "tag:yaml.org,2002:seq" then return .list (← items.mapM (Node.value depth))
    else throw .document
  | depth + 1, .mapping tag entries => do
    if !tag.allows "tag:yaml.org,2002:map" then throw .document
    let values ← (← spread entries).mapM fun (key, value) => do
      let key ← key.value depth
      if !key.isKey then throw .document
      return (key, ← value.value depth)
    return .mapping (gather values)

/-! ## The first fault -/

/-- Meets a node: a scalar is read, and a collection is put off, unless its tag is unknown. -/
def Node.meet : Node → Read (List Node)
  | .scalar (.named name) text =>
    if collectionTags.contains name then .ok [.scalar (.named name) text]
    else (scalarOf (.named name) text).map fun _ => []
  | .scalar tag text => (scalarOf tag text).map fun _ => []
  | .sequence (.named name) items =>
    if collectionTags.contains name then .ok [.sequence (.named name) items] else .error .document
  | .mapping (.named name) entries =>
    if collectionTags.contains name then .ok [.mapping (.named name) entries] else .error .document
  | node => .ok [node]

/-- Fills a collection: meets what stands in it, and returns what is put off. No collection can be a
key. -/
def Node.fill : Node → Read (List Node)
  | .scalar .. => .error .document
  | .sequence tag items => do
    if tag.allows "tag:yaml.org,2002:seq" then return (← items.mapM Node.meet).flatten
    else throw .document
  | .mapping tag entries => do
    if !tag.allows "tag:yaml.org,2002:map" then throw .document
    let later ← (← spread entries).mapM fun (key, value) => do
      if !(← key.meet).isEmpty then throw .document
      value.meet
    return later.flatten

/-- Fills collections of one depth, and then those within them, at most so deep. -/
def fillAll : Nat → List Node → Read Unit
  | 0, _ => .ok ()
  | depth + 1, level => do
    let next := (← level.mapM Node.fill).flatten
    if next.isEmpty then return () else fillAll depth next

/-! ## Documents -/

/-- The value of a text with at most one document; without one it is nothing. Every level of nesting
takes a token of its own, so their number bounds the depth. -/
def read (text : String) : Read Value := do
  let tokens ← tokens text.toList
  match ← require (document? tokens) with
  | none => return .null
  | some node =>
    fillAll tokens.length (← node.meet)
    node.value tokens.length

end Facet.Yaml
