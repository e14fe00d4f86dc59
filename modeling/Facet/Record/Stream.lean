import Facet.Extractor.Basic
import Facet.Record.Codec

/-!
# Reading and writing configurations

A record configures a new extractor or one that exists; stride and backend are no part of it. In a
stream records follow one another without anything between them, and reading one moves the position
past it, whether or not it is valid.
-/

namespace Facet

/-- A stream of bytes with a position at which it is read and written. -/
structure ByteStream where
  /-- All bytes. -/
  bytes : List UInt8
  /-- How many bytes lie before the next one. -/
  position : Nat

namespace ByteStream

/-- A stream at its start. -/
def ofBytes (bytes : List UInt8) : ByteStream := ⟨bytes, 0⟩

/-- The next `count` bytes, or as many as are left, and the stream behind them. -/
def read (s : ByteStream) (count : Nat) : List UInt8 × ByteStream :=
  let bytes := (s.bytes.drop s.position).take count
  (bytes, { s with position := s.position + bytes.length })

/-- Writes bytes over those at the position, extending the stream where it ends. A gap before the
position is filled with zeros. -/
def write (s : ByteStream) (data : List UInt8) : ByteStream :=
  let before := s.bytes.take s.position
  let gap := List.replicate (s.position - before.length) 0
  let stop := s.position + data.length
  ⟨before ++ gap ++ data ++ s.bytes.drop stop, stop⟩

/-- The same stream at another position. -/
def seek (s : ByteStream) (position : Nat) : ByteStream := { s with position }

end ByteStream

namespace Extractor

variable {α : Type} [Scalar α]

/-- The record of an extractor's configuration. -/
def record (x : Extractor α) : Record := ⟨x.order.degree, x.window.side⟩

/-- The bytes of an extractor's configuration. -/
def bytes (x : Extractor α) : List UInt8 := x.record.encode

/-- Writes the configuration of an extractor to a stream. -/
def writeTo (x : Extractor α) (s : ByteStream) : ByteStream := s.write x.bytes

variable [Decomposition α]

omit [Scalar α] [Decomposition α] in
/-- Refuses a record whose configuration or its fit is refused, which is noted in the journal
first. -/
def rejectRecord {β : Type} (r : Record) (e : Fault) : Run α Fault β :=
  Run.answer e fun cause => do
    Run.note (.recordRejected r.order r.window)
    throw (.record (.refused cause))

/-- Configures an extractor by a record. -/
def configure (x : Extractor α) (r : Record) : Run α Fault (Extractor α) := do
  match ← Run.outcome (x.setup (.int r.order) (.int r.window)) with
  | .ok x => return x
  | .error e => rejectRecord r e

/-- Configures an extractor, or a new one with defaults, by a record that has been read. -/
def ofRecord (r : Record) (target : Option (Extractor α)) : Run α Fault (Extractor α) := do
  match target with
  | some x => x.configure r
  | none => (← construct none none none none).configure r

/-- Configures an extractor, or a new one, by a value of any kind that should be a record. -/
def ofData (data : Value) (target : Option (Extractor α)) : Run α Fault (Extractor α) := do
  ofRecord (← Run.check id (Record.ofValue data)) target

/-- Configures an extractor, or a new one, by the next record of a stream. The stream moves on in
any case. -/
def readFrom (s : ByteStream) (target : Option (Extractor α)) :
    Run α Fault (Extractor α) × ByteStream :=
  let (bytes, rest) := s.read Record.length
  if bytes.length < Record.length then (throw (.record (.endOfStream bytes.length)), rest)
  else (ofData (.bytes bytes) target, rest)

end Extractor

end Facet
