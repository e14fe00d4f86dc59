import Facet.Extraction.Backend
import Facet.Settings.Basic

/-!
# Configuration trees

A configuration is a mapping of sections, each a mapping of its own. A document may give any part of
it; what it leaves out keeps its default. Two mappings at the same place are merged entry by entry,
and in every other case what the document gives replaces what was there.
-/

namespace Facet.Settings

/-- Entries under text keys. -/
def entries (fields : List (String × Value)) : List (Value × Value) :=
  fields.map fun (name, v) => (.text name, v)

/-- The configuration that is used where nothing is given. -/
def defaultTree : List (Value × Value) :=
  entries
    [("poly_image", .mapping (entries
      [("order", defaultOrder.value), ("window_size", defaultWindow.value),
        ("downsample", defaultStride.value), ("backend", .text Backend.standard.name)])),
      ("logging", .mapping (entries [("level", .text "INFO"), ("log_file", .null)]))]

mutual

/-- The value under a key once a new one is given for it. -/
def mergeValue (base : Option Value) (given : Value) : Value :=
  match given, base with
  | .mapping new, some (.mapping old) => .mapping (merge old new)
  | given, _ => given
termination_by structural given

/-- The entries of a mapping once others are given for it. -/
def merge (base : List (Value × Value)) (given : List (Value × Value)) : List (Value × Value) :=
  match given with
  | [] => base
  | (key, value) :: rest =>
    merge (Value.insert key (mergeValue (Value.lookup? key base) value) base) rest
termination_by structural given

end

/-! ## Reading a configuration -/

/-- Why two keys have no order. -/
def orderFault (a b : Value) : ArgumentFault :=
  match a, b with
  | .date _, .moment _ | .moment _, .date _ => .dateAndMoment
  | .moment _, .moment _ => .unrelatedClocks
  | a, b => .incomparable "<" a.kind b.kind

/-- Puts a key where it belongs among sorted keys, comparing it with them from the last to the
first. -/
def placeKey (key : Value) : List Value → Except ArgumentFault (List Value)
  | [] => .ok [key]
  | last :: before =>
    match key.sortsBefore? last with
    | some true => do return last :: (← placeKey key before)
    | some false => .ok (key :: last :: before)
    | none => .error (orderFault key last)

/-- Keys in order. Keys of kinds that have no common order cannot be sorted. -/
def sortKeys (keys : List Value) : Except ArgumentFault (List Value) := do
  return (← keys.foldlM (fun sorted key => placeKey key sorted) []).reverse

/-- Whether a key names a section that exists. -/
def isSection (key : Value) : Bool := (Value.lookup? key defaultTree).isSome

/-- The configuration that a document at a path gives, laid over the defaults. A document without
content gives the defaults; any other must be a mapping, all of whose keys are sections that exist
and all of whose values are mappings. -/
def ofDocument (path : String) (document : Value) : Except Fault (List (Value × Value)) :=
  match document with
  | .null => .ok defaultTree
  | .mapping given => do
    let unknown := (given.map Prod.fst).filter fun key => !isSection key
    if !unknown.isEmpty then
      let sorted ← (sortKeys unknown).mapError .argument
      throw (.showing sorted (.setting (.unknownSections sorted)))
    match given.find? fun (_, v) => !v.isMapping with
    | some (name, _) => throw (.setting (.badSection name))
    | none => return merge defaultTree given
  | _ => .error (.setting (.notMapping path))

end Facet.Settings
