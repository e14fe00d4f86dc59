import Facet.Record.Stream

/-!
# Named extractors

A store holds extractors and streams under names, all within one session. A command either does its
work or is refused. A refused command changes no extractor; it may have moved a stream, filled the
cache, or left an entry in the journal.
-/

namespace Facet

/-- A change of a store. -/
inductive Command (α : Type) where
  /-- Makes a new extractor; what is not given takes its default. -/
  | construct (name : String) (order window stride backend : Option Value)
  /-- Makes a new extractor from a configuration. -/
  | fromConfiguration (name : String) (config : Value)
  /-- Changes order and window of an extractor. -/
  | setup (name : String) (order window : Value)
  /-- Resets an extractor. -/
  | clear (name : String)
  /-- Extracts the features of an image. -/
  | load (name : String) (image : ArrayLike α)
  /-- Drops the features of an extractor. -/
  | unload (name : String)
  /-- Takes over the configuration of another extractor. -/
  | copy (name source : String)
  /-- Makes a new extractor from a record. -/
  | decode (name : String) (data : Value)
  /-- Configures an extractor by a record. -/
  | decodeInto (name : String) (data : Value)
  /-- Opens a stream of the given bytes at its start. -/
  | openStream (stream : String) (bytes : List UInt8)
  /-- Moves a stream to another position. -/
  | seek (stream : String) (position : Int)
  /-- Makes a new extractor from the next record of a stream. -/
  | read (stream name : String)
  /-- Configures an extractor by the next record of a stream. -/
  | readInto (stream name : String)
  /-- Writes the configuration of an extractor to a stream. -/
  | write (name stream : String)

/-- Extractors and streams by name. -/
structure Store (α : Type) where
  /-- What the extractors share. -/
  session : Session α
  /-- The extractors. -/
  extractors : List (String × Extractor α)
  /-- The streams. -/
  streams : List (String × ByteStream)

/-- Puts a value under a name, in place of the one that was there. -/
def assign {β : Type} (name : String) (value : β) : List (String × β) → List (String × β)
  | [] => [(name, value)]
  | (other, v) :: rest =>
    if other = name then (name, value) :: rest else (other, v) :: assign name value rest

namespace Store

variable {α : Type}

/-- A store that holds nothing. -/
def empty : Store α := ⟨.start, [], []⟩

/-- The extractor of a name. -/
def extractor? (s : Store α) (name : String) : Option (Extractor α) := s.extractors.lookup name

/-- The stream of a name. -/
def stream? (s : Store α) (name : String) : Option ByteStream := s.streams.lookup name

/-- Runs an operation that yields an extractor, and keeps what it yields under a name. -/
def keep (s : Store α) (name : String) (op : Run α Fault (Extractor α)) :
    Except Fault Unit × Store α :=
  match op.run s.session with
  | (.ok x, session) =>
    (.ok (), { s with session, extractors := assign name x s.extractors })
  | (.error e, session) => (.error e, { s with session })

/-- Puts an extractor of a name through an operation. -/
def update (s : Store α) (name : String) (op : Extractor α → Run α Fault (Extractor α)) :
    Except Fault Unit × Store α :=
  match s.extractor? name with
  | some x => s.keep name (op x)
  | none => (.error .unknownName, s)

/-- Puts a stream under a name. -/
def setStream (s : Store α) (name : String) (stream : ByteStream) : Store α :=
  { s with streams := assign name stream s.streams }

/-- Reads the next record of a stream, and keeps the extractor that it configures under a name. -/
def readRecord [Scalar α] [Decomposition α] (s : Store α) (stream name : String)
    (target : Option (Extractor α)) : Except Fault Unit × Store α :=
  match s.stream? stream with
  | none => (.error .unknownName, s)
  | some bytes =>
    let (op, rest) := Extractor.readFrom bytes target
    (s.setStream stream rest).keep name op

/-- Carries out a command. -/
def step [Scalar α] [Decomposition α] (s : Store α) :
    Command α → Except Fault Unit × Store α
  | .construct name order window stride backend =>
    s.keep name (Extractor.construct order window stride backend)
  | .fromConfiguration name config => s.keep name (Extractor.fromConfiguration config)
  | .setup name order window => s.update name fun x => x.setup order window
  | .clear name => s.update name Extractor.clear
  | .load name image => s.update name fun x => x.load image
  | .unload name => s.update name Extractor.unload
  | .copy name source =>
    match s.extractor? source with
    | some source => s.update name fun _ => pure source.copyConfiguration
    | none => (.error .unknownName, s)
  | .decode name data => s.keep name (Extractor.ofData data none)
  | .decodeInto name data => s.update name fun x => Extractor.ofData data (some x)
  | .openStream stream bytes => (.ok (), s.setStream stream (.ofBytes bytes))
  | .seek stream position =>
    match s.stream? stream with
    | some bytes =>
      if 0 ≤ position then (.ok (), s.setStream stream (bytes.seek position.toNat))
      else (.error (.argument (.negativePosition position)), s)
    | none => (.error .unknownName, s)
  | .read stream name => s.readRecord stream name none
  | .readInto stream name =>
    match s.extractor? name with
    | some x => s.readRecord stream name (some x)
    | none => (.error .unknownName, s)
  | .write name stream =>
    match s.extractor? name, s.stream? stream with
    | some x, some bytes => (.ok (), s.setStream stream (x.writeTo bytes))
    | _, _ => (.error .unknownName, s)

/-- Carries out commands one after the other, whether or not some of them are refused. -/
def run [Scalar α] [Decomposition α] (s : Store α) (commands : List (Command α)) : Store α :=
  commands.foldl (fun s c => (s.step c).2) s

end Store

end Facet
