import Facet.Decimal.Nearest
import Facet.Value.Number

/-!
# Arithmetic with values

Numbers among the values can be computed with. Truth values count as whole numbers, whole numbers
stay exact, and where a double takes part the result is a double. All other values are refused: the
fault names the operation and the kinds of both operands. A sequence could be repeated, so it is
refused only once something is to be added to it.
-/

namespace Facet

/-- A number among the values. -/
inductive Number where
  /-- A whole number. -/
  | whole (n : Int)
  /-- A double. -/
  | double (x : Float)

namespace Number

/-- The number in a value, if there is one. -/
def ofValue? : Value → Option Number
  | .float x => some (.double x)
  | v => v.integer?.map .whole

/-- A number as a value. -/
def value : Number → Value
  | .whole n => .int n
  | .double x => .float x

/-- A number as a double. -/
def toDouble (x : Number) : Except ArgumentFault Float := x.value.toDouble

/-- The result of an operation that is exact on whole numbers. -/
def combine (whole : Int → Int → Int) (double : Float → Float → Float) :
    Number → Number → Except ArgumentFault Number
  | .whole m, .whole n => .ok (.whole (whole m n))
  | x, y => do return .double (double (← x.toDouble) (← y.toDouble))

/-- The quotient of two whole numbers as the nearest double. -/
def wholeQuotient (m n : Int) : Except ArgumentFault Float :=
  if n = 0 then .error (.zeroDivisor "division")
  else
    let x := (Decimal.Fraction.mk m.natAbs n.natAbs).toFloat
    if x.isInf then .error .quotientOverflow else .ok (if (m < 0) != (n < 0) then -x else x)

/-- The quotient of two numbers. -/
def quotient : Number → Number → Except ArgumentFault Float
  | .whole m, .whole n => wholeQuotient m n
  | x, y => do
    let a ← x.toDouble
    let b ← y.toDouble
    if b == 0 then throw (.zeroDivisor "float division") else return a / b

/-- The quotient of two doubles rounded down, found in exact numbers; it is no number if one of
them is not finite. -/
def floorQuotient (a b : Float) : Float :=
  match (Value.float a).dyadic?, (Value.float b).dyadic? with
  | some x, some y => let (m, n) := Value.align x y; Float.ofInt (m.fdiv n)
  | _, _ => 0 / 0

/-- The quotient of two numbers rounded down. -/
def floored : Number → Number → Except ArgumentFault Number
  | .whole m, .whole n =>
    if n = 0 then .error (.zeroDivisor "integer division or modulo") else .ok (.whole (m.fdiv n))
  | x, y => do
    let a ← x.toDouble
    let b ← y.toDouble
    if b == 0 then throw (.zeroDivisor "float floor division")
    else return .double (floorQuotient a b)

end Number

namespace Value

/-- Applies an operation to two values that have to be numbers. -/
def compute {β : Type} (symbol : String) (operation : Number → Number → Except ArgumentFault β)
    (a b : Value) : Except ArgumentFault β :=
  match Number.ofValue? a, Number.ofValue? b with
  | some x, some y => operation x y
  | _, _ => .error (.operands symbol a.kind b.kind)

/-- A value plus a whole number. -/
def plus (v : Value) (n : Int) : Except ArgumentFault Value :=
  Number.value <$> v.compute "+" (Number.combine (· + ·) (· + ·)) (.int n)

/-- A value minus another. -/
def minus (a b : Value) : Except ArgumentFault Value :=
  Number.value <$> a.compute "-" (Number.combine (· - ·) (· - ·)) b

/-- A value divided by another, rounded down. -/
def floorDiv (a b : Value) : Except ArgumentFault Value :=
  Number.value <$> a.compute "//" Number.floored b

/-- The quotient of two values. -/
def divided (a b : Value) : Except ArgumentFault Float := a.compute "/" Number.quotient b

/-- The number of items of a sequence. -/
def sequenceLength? : Value → Option Nat
  | .list items => some items.length
  | .text s => some s.length
  | .bytes data => some data.length
  | _ => none

/-- Why a sequence that is repeated so many times cannot be added to. Its length may be refused
before, except that of a list. -/
def sequenceFault (kind : String) (length : Nat) (count : Int) : ArgumentFault :=
  if !Word.fitsSigned 64 count then .countOverflow
  else if kind != "list" && Word.signedEnd 64 ≤ length * count then .repetition kind
  else .concatenation kind

/-- A value times a whole number, plus another. -/
def scaledPlus (v : Value) (factor offset : Int) : Except ArgumentFault Value :=
  match v.sequenceLength? with
  | some length => .error (sequenceFault v.kind length factor)
  | none => do
    let product ← v.compute "*" (Number.combine (· * ·) (· * ·)) (.int factor)
    product.value.plus offset

/-- A double times a value. -/
def doubleTimes (x : Float) (v : Value) : Except ArgumentFault Float :=
  match v.sequenceLength? with
  | some _ => .error .brokenRepetition
  | none => (Value.float x).compute "*" (fun a b => do return (← a.toDouble) * (← b.toDouble)) v

end Value

end Facet
