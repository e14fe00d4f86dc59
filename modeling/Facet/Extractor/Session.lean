import Facet.Decimal.Layout
import Facet.Fit.Model
import Facet.Image.Samples

/-!
# What extractors share

All extractors draw their models from one cache and write what they do into one journal. Both belong
to a session. An operation either returns a result or is refused, and in both cases it may have left
an entry in the journal or a model in the cache: so the session comes out of a refused operation,
too.
-/

namespace Facet

/-- What is written into the journal. -/
inductive Event (α : Type) where
  /-- A design matrix has fewer independent columns than monomials. -/
  | rankDeficient (rank terms : Nat)
  /-- A model was computed. -/
  | modelReady (order : Order) (window : Window) (condition : α)
  /-- A setup was refused. -/
  | setupRejected (order window : Value) (cause : SetupFault)
  /-- An extractor was set up. -/
  | setUp (order : Order) (window : Window)
  /-- An extractor was reset. -/
  | cleared
  /-- Features were extracted from an image. -/
  | loaded (shape : List Nat) (rows cols dimensions : Nat)
  /-- Features were dropped. -/
  | unloaded
  /-- A configuration record was refused. -/
  | recordRejected (order window : Int)

/-- How much attention a journal entry needs. -/
inductive Severity where
  /-- Details of normal work. -/
  | debug
  /-- Something was refused. -/
  | warning
deriving Repr, DecidableEq

namespace Event

/-- The severity of an entry: refusals are warnings. -/
def severity {α : Type} : Event α → Severity
  | .setupRejected .. | .recordRejected .. => .warning
  | _ => .debug

/-- A condition number at three digits. Beyond `10 ^ 12` it is only rounding error and is left
out. -/
def conditionText (x : Float) : String := if x ≤ 1e12 then Decimal.textTo 3 x else "*"

/-- The text of an entry. -/
def text : Event Float → String
  | .rankDeficient rank terms =>
    "Rank deficient design matrix (rank " ++ toString rank ++ " < " ++ toString terms
      ++ " terms), using minimum-norm fit"
  | .modelReady order window condition =>
    "Fit operator ready | order=" ++ toString order.degree ++ " window_size="
      ++ toString window.side ++ " terms=" ++ toString order.terms ++ " cond="
      ++ conditionText condition
  | .setupRejected order window cause =>
    "setup rejected | order=" ++ order.plain ++ " window_size=" ++ window.plain ++ ": "
      ++ cause.message
  | .setUp order window =>
    "setup | order=" ++ toString order.degree ++ " window_size=" ++ toString window.side
  | .cleared => "clear"
  | .loaded shape rows cols dimensions =>
    "load | image=" ++ tupleText shape ++ " grid=" ++ toString rows ++ "x" ++ toString cols
      ++ " dims=" ++ toString dimensions
  | .unloaded => "unload"
  | .recordRejected order window =>
    "deserialize rejected | order=" ++ toString order ++ " window_size=" ++ toString window

/-- The line of an entry: its severity and its text. -/
def line (e : Event Float) : String :=
  (match e.severity with | .debug => "DEBUG " | .warning => "WARNING ") ++ e.text

end Event

/-- What extractors share. -/
structure Session (α : Type) where
  /-- The models that were used last. -/
  models : ModelCache α
  /-- The journal, the newest entry first. -/
  journal : List (Event α)
  /-- The tag that the next shared value gets. -/
  nextTag : Nat

/-- A session in which nothing happened yet. -/
def Session.start {α : Type} : Session α := ⟨⟨[]⟩, [], 0⟩

/-- An operation within a session: it ends with a result or is refused for a cause, and leaves the
session in a new state either way. -/
abbrev Run (α ε β : Type) := ExceptT ε (StateM (Session α)) β

namespace Run

variable {α ε δ β : Type}

/-- Writes an entry into the journal. -/
def note (e : Event α) : Run α ε Unit :=
  modify fun s => { s with journal := e :: s.journal }

/-- Makes a value that can be shared. -/
def share (value : β) : Run α ε (Shared β) :=
  modifyGet fun s => (⟨s.nextTag, value⟩, { s with nextTag := s.nextTag + 1 })

/-- A computation outside the session, its refusals put under a cause. -/
def check (cause : δ → ε) (r : Except δ β) : Run α ε β :=
  match r with
  | .ok b => pure b
  | .error e => throw (cause e)

/-- The same operation with its refusals put under another cause. -/
def under (cause : δ → ε) (r : Run α δ β) : Run α ε β := ExceptT.adapt cause r

/-- The outcome of an operation as a value, so that a refusal can be answered. -/
def outcome (r : Run α δ β) : Run α ε (Except δ β) := ExceptT.lift r.run

/-- Answers a refusal, if it is that of a configuration or of its fit. Any other goes on. -/
def answer (e : Fault) (handler : SetupFault → Run α Fault β) : Run α Fault β :=
  match e.setup? with
  | some cause => handler cause
  | none => throw e

end Run

variable {α : Type} [Scalar α] [Decomposition α]

/-- The model for an order and a window: the one from the cache, or else a new one. -/
def modelFor (k : Order) (w : Window) : Run α FitFault (Shared (FitModel α)) := do
  match (← get).models.find? k w with
  | some kept =>
    modify fun s => { s with models := s.models.touch kept }
    return kept
  | none =>
    let (model, fitted) ← Run.check id (FitModel.build k w)
    if fitted.rank < k.terms then Run.note (.rankDeficient fitted.rank k.terms)
    Run.note (.modelReady k w fitted.condition)
    let model ← Run.share model
    modify fun s => { s with models := s.models.touch model }
    return model

/-- The model for an order and a window of any kind. -/
def modelOf (order window : Value) : Run α Fault (Shared (FitModel α)) := do
  let k ← Run.check id (Order.ofValue order)
  let w ← Run.check id (Window.ofValue window)
  (modelFor k w).under .fit

/-- The operator of a least-squares fit for a design matrix of any kind. What is empty or not finite
is refused before what is no matrix. -/
def operatorOf (design : ArrayLike α) : Run α Fault (StoredMatrix α) := do
  let t ← Run.check .argument design.toNumbers
  if extent t.shape = 0 ∨ !t.toList.all Scalar.isFinite then throw (.fit .unusable)
  match StoredMatrix.ofTensor? t with
  | none => throw (.argument .notMatrix)
  | some a =>
    let fitted ← Run.check .fit (fit a.entries)
    if fitted.rank < a.cols then Run.note (.rankDeficient fitted.rank a.cols)
    return ⟨a.cols, a.rows, fitted.operator⟩

end Facet
