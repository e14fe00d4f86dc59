import Facet.Calendar
import Facet.Decimal.Binary

/-!
# Values of any kind

Settings, coordinates, nested lists of pixels and records arrive as values of any kind, and part of
the library's work is to say which of them it accepts. A `Value` is such an argument: nothing, a
truth value, a whole number of any size, a double, a text, a byte string, a date or a time, a list
or a mapping. A mapping keeps the order in which its keys were first written.
-/

namespace Facet

/-- An argument of any kind. -/
inductive Value where
  /-- Nothing. -/
  | null
  /-- A truth value. It is no whole number, although it counts as 0 or 1 in arithmetic. -/
  | bool (b : Bool)
  /-- A whole number of any size. -/
  | int (n : Int)
  /-- A double. -/
  | float (x : Float)
  /-- A text. -/
  | text (s : String)
  /-- A byte string. -/
  | bytes (data : List UInt8)
  /-- A day. -/
  | date (d : Date)
  /-- A day with a time of day. -/
  | moment (m : Moment)
  /-- A list. -/
  | list (items : List Value)
  /-- A mapping, its entries in order. -/
  | mapping (entries : List (Value × Value))

instance : Inhabited Value := ⟨.null⟩

namespace Value

/-- The name of a value's kind, as messages show it. -/
def kind : Value → String
  | .null => "NoneType"
  | .bool _ => "bool"
  | .int _ => "int"
  | .float _ => "float"
  | .text _ => "str"
  | .bytes _ => "bytes"
  | .date _ => "datetime.date"
  | .moment _ => "datetime.datetime"
  | .list _ => "list"
  | .mapping _ => "dict"

/-- The same name without that of the module in which a kind is defined. -/
def className : Value → String
  | .date _ => "date"
  | .moment _ => "datetime"
  | v => v.kind

/-- Whether a value is a mapping. -/
def isMapping : Value → Bool
  | .mapping _ => true
  | _ => false

/-! ## Numbers among the values -/

/-- A truth value or whole number as the number that it counts as. -/
def integer? : Value → Option Int
  | .bool b => some (if b then 1 else 0)
  | .int n => some n
  | _ => none

/-- A finite number as `mantissa · 2 ^ exponent`. -/
def dyadic? : Value → Option (Int × Int)
  | .float x =>
    match Decimal.Binary.ofFloat x with
    | .finite negative mantissa exponent =>
      some (if negative then -(mantissa : Int) else mantissa, exponent)
    | _ => none
  | v => v.integer?.map (·, 0)

/-- Two numbers `mantissa · 2 ^ exponent` brought to the smaller of the two exponents. -/
def align (a b : Int × Int) : Int × Int :=
  let low := min a.2 b.2
  (a.1 * Nat.pow 2 (a.2 - low).toNat, b.1 * Nat.pow 2 (b.2 - low).toNat)

/-- Whether two values are one and the same key of a mapping: numbers by their value whatever their
kind, all else by kind and content. What is not a number is one key too. Lists and mappings are no
keys at all. -/
def sameKey (a b : Value) : Bool :=
  match a.dyadic?, b.dyadic? with
  | some x, some y => let (m, n) := align x y; m == n
  | some _, none | none, some _ => false
  | none, none =>
    match a, b with
    | .null, .null => true
    | .float x, .float y => Decimal.Binary.ofFloat x == Decimal.Binary.ofFloat y
    | .text s, .text t => s == t
    | .bytes s, .bytes t => s == t
    | .date d, .date e => d == e
    | .moment m, .moment n => m.same n
    | _, _ => false

/-- Whether one key sorts before another; `none` if their kinds have no common order. Not a number
sorts before nothing. -/
def sortsBefore? (a b : Value) : Option Bool :=
  match a.dyadic?, b.dyadic? with
  | some x, some y => let (m, n) := align x y; some (m < n)
  | some _, none =>
    match b with
    | .float y => some (0 < y)
    | _ => none
  | none, some _ =>
    match a with
    | .float x => some (x < 0)
    | _ => none
  | none, none =>
    match a, b with
    | .float x, .float y => some (x < y)
    | .text s, .text t => some (s < t)
    | .bytes s, .bytes t => some (s < t)
    | .date d, .date e => some (d.ordinal < e.ordinal)
    | .moment m, .moment n => if m.comparable n then some (m.instant < n.instant) else none
    | _, _ => none

/-- Whether a value can be a key of a mapping. -/
def isKey : Value → Bool
  | .list _ | .mapping _ => false
  | _ => true

/-! ## Entries of a mapping -/

/-- The value under a key. -/
def lookup? (key : Value) : List (Value × Value) → Option Value
  | [] => none
  | (k, v) :: rest => if k.sameKey key then some v else lookup? key rest

/-- Writes a value under a key. A key that is there already keeps its place and its spelling; a new
one goes to the end. -/
def insert (key value : Value) : List (Value × Value) → List (Value × Value)
  | [] => [(key, value)]
  | (k, v) :: rest =>
    if k.sameKey key then (k, value) :: rest else (k, v) :: insert key value rest

/-- The value under a text key of a mapping. -/
def field? (name : String) (entries : List (Value × Value)) : Option Value :=
  lookup? (.text name) entries

end Value

end Facet
