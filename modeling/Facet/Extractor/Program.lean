import Facet.Extractor.Store

/-!
# Operations write by write

An operation that changes an extractor does not replace it as a whole: it writes one field after the
other, and every write is seen at once by all who hold the extractor. Here each operation is a
program on a store that is made of such writes, in the order in which they happen, with everything
that can be refused at the place where it is found out. Nothing is taken back: what was written
before a refusal stays written.

An image that is loaded is asked twice for what it holds, for its pixels before the features are
written and for its shape afterwards. An array gives two answers that agree. Another object is free
to refuse the second although it gave the first.
-/

namespace Facet

/-- A program on a store: it ends with a result or is refused for a cause, and what it has written
until then stays in the store either way. -/
abbrev Program (α ε β : Type) := ExceptT ε (StateM (Store α)) β

/-- An image by the answers that it gives, or refuses to give, when it is asked for what it holds. -/
structure ImageSource (α : Type) where
  /-- The pixels, which are asked for first. -/
  pixels : Except Fault (ArrayLike α)
  /-- The lengths of the axes, which are asked for once the pixels have been used. -/
  shape : Except Fault (List Nat)

/-- An image that gives the same answer every time. -/
def ImageSource.ofImage {α : Type} [Scalar α] (image : ArrayLike α) : ImageSource α where
  pixels := .ok image
  shape := (image.toSamples.map Samples.shape).mapError .argument

namespace Program

variable {α ε δ β : Type}

/-- An operation within the session of the store. -/
def within (op : Run α ε β) : Program α ε β :=
  ExceptT.mk fun s => let (result, session) := op.run s.session; (result, { s with session })

/-- The outcome of a program as a value, so that a refusal can be answered. -/
def outcome (p : Program α δ β) : Program α ε (Except δ β) := ExceptT.lift p.run

/-- The extractor of a name as it is now. -/
def extractor (name : String) : Program α Fault (Extractor α) := do
  match (← get).extractor? name with
  | some x => return x
  | none => throw .unknownName

/-- Writes into the extractor of a name. -/
def write (name : String) (change : Extractor α → Extractor α) : Program α ε Unit :=
  modify fun s =>
    match s.extractor? name with
    | some x => { s with extractors := assign name (change x) s.extractors }
    | none => s

variable [Scalar α] [Decomposition α]

/-- Changes the order and the window of the extractor `x` of a name. The mapping reads window and
stride once more after two fields have been written. -/
def setup (name : String) (x : Extractor α) (order window : Value) : Program α Fault Unit := do
  match ← outcome (within (x.prepare order window)) with
  | .error e => within (Extractor.reject order window e)
  | .ok (settings, model) =>
    let shared ← within (Run.share settings)
    write name fun x => { x with settings := shared }
    write name fun x => { x with model := model }
    let mapping ← within (Run.check id
      (Mapping.ofValues (some settings.window.value) (some settings.stride.value)))
    write name fun x => { x with mapping := mapping }
    write name fun x => { x with features := .empty model.value.dimensions }
    within (Run.note (.setUp settings.order settings.window))

/-- Goes back to the default order and window. -/
def clear (name : String) (x : Extractor α) : Program α Fault Unit := do
  setup name x Settings.defaultOrder.value Settings.defaultWindow.value
  within (Run.note .cleared)

omit [Decomposition α] in
/-- Extracts the features of an image. The shape is asked for only to be noted in the journal, after
the features have been written. -/
def load (name : String) (x : Extractor α) (image : ImageSource α) : Program α Fault Unit := do
  let pixels ← within (Run.check id image.pixels)
  let features ← within (Run.check id
    (extract x.backend pixels x.model.value.matrix x.window x.stride))
  write name fun x => { x with features := features }
  let shape ← within (Run.check id image.shape)
  within (Run.note (.loaded shape features.rows features.cols x.dimensions))

omit [Scalar α] [Decomposition α] in
/-- Takes over one field from another extractor, which may be the same one, as it is now. -/
def transfer (name source : String) (field : Extractor α → Extractor α → Extractor α) :
    Program α Fault Unit := do
  let other ← extractor source
  write name (field other)

omit [Scalar α] [Decomposition α] in
/-- Takes over everything but the features from another extractor, field by field. -/
def copy (name source : String) : Program α Fault Unit := do
  transfer name source fun other x => { x with settings := other.settings }
  transfer name source fun other x => { x with model := other.model }
  transfer name source fun other x => { x with backend := other.backend }
  transfer name source fun other x => { x with mapping := other.mapping }
  transfer name source fun other x => { x with features := .empty other.dimensions }

/-- Configures the extractor `x` of a name by a record. -/
def configure (name : String) (x : Extractor α) (r : Record) : Program α Fault Unit := do
  match ← outcome (setup name x (.int r.order) (.int r.window)) with
  | .ok () => return ()
  | .error e => within (Extractor.rejectRecord r e)

/-- Configures the extractor `x` of a name by a value of any kind that should be a record. -/
def decode (name : String) (x : Extractor α) (data : Value) : Program α Fault Unit := do
  configure name x (← within (Run.check id (Record.ofValue data)))

/-- Configures the extractor `x` of a name by the next record of a stream. -/
def read (name : String) (x : Extractor α) (stream : String) (bytes : ByteStream) :
    Program α Fault Unit := do
  let (data, rest) := bytes.read Record.length
  modify fun s => s.setStream stream rest
  if data.length < Record.length then throw (.record (.endOfStream data.length))
  else decode name x (.bytes data)

end Program

/-! ## Calls -/

/-- What can be asked of an extractor that exists. -/
inductive Call (α : Type) where
  /-- Change order and window. -/
  | setup (order window : Value)
  /-- Reset it. -/
  | clear
  /-- Extract the features of an image. -/
  | load (image : ImageSource α)
  /-- Look up the descriptor at a place. -/
  | select (index : Value)
  /-- Compute the descriptor of a single window. -/
  | descriptorOf (window : ImageSource α)
  /-- Take over the configuration of another extractor. -/
  | copy (source : String)
  /-- Configure it by a record. -/
  | decode (data : Value)
  /-- Configure it by the next record of a stream. -/
  | read (stream : String)

namespace Call

variable {α : Type} [Scalar α] [Decomposition α]

/-- The program of a call to the extractor of a name. -/
def program (name : String) : Call α → Program α Fault Unit
  | .setup order window => do
    let x ← Program.extractor name
    Program.setup name x order window
  | .clear => do
    let x ← Program.extractor name
    Program.clear name x
  | .load image => do
    let x ← Program.extractor name
    Program.load name x image
  | .select index => do
    let x ← Program.extractor name
    let _ ← Program.within (Run.check .argument (x.select index))
  | .descriptorOf window => do
    let x ← Program.extractor name
    let window ← Program.within (Run.check id window.pixels)
    let _ ← Program.within (Run.check .argument (x.descriptorOf window))
  | .copy source => do
    let _ ← Program.extractor source
    let _ ← Program.extractor name
    Program.copy name source
  | .decode data => do
    let x ← Program.extractor name
    Program.decode name x data
  | .read stream => do
    let x ← Program.extractor name
    match (← get).stream? stream with
    | some bytes => Program.read name x stream bytes
    | none => throw .unknownName

/-- The command that a call carries out. Calls that only read carry out none, nor do those for an
image whose answers do not agree. -/
inductive CarriesOut (name : String) : Call α → Command α → Prop
  | setup (order window : Value) : CarriesOut name (.setup order window) (.setup name order window)
  | clear : CarriesOut name .clear (.clear name)
  | load (image : ArrayLike α) : CarriesOut name (.load (.ofImage image)) (.load name image)
  | copy (source : String) : CarriesOut name (.copy source) (.copy name source)
  | decode (data : Value) : CarriesOut name (.decode data) (.decodeInto name data)
  | read (stream : String) : CarriesOut name (.read stream) (.readInto stream name)

end Call

/-- Calls the extractor of a name. -/
def Store.call {α : Type} [Scalar α] [Decomposition α] (s : Store α) (name : String) (c : Call α) :
    Except Fault Unit × Store α :=
  (c.program name).run s

end Facet
