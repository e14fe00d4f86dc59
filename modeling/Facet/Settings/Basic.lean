import Facet.Fault

/-!
# Settings

A configuration consists of three numbers: the order of the polynomial, the side of the window and
the stride between features. Each has a type that holds only what is allowed, so a value of type
`Settings` is valid, and everything that can be wrong is found where an argument of any kind is
turned into one of these types.
-/

namespace Facet

/-- The degree of the fitted polynomial: one to six. -/
structure Order where
  /-- The degree. -/
  degree : Nat
  /-- A polynomial of degree zero has no descriptor. -/
  one_le : 1 ≤ degree
  /-- Beyond degree six nothing is fitted. -/
  le_six : degree ≤ 6
deriving DecidableEq

/-- A square window with a centre pixel, given by how far it reaches on each side of it. -/
structure Window where
  /-- The distance from the centre to the edge. -/
  margin : Nat
  /-- The window has at least three pixels on a side. -/
  one_le : 1 ≤ margin
deriving DecidableEq

namespace Window

/-- The number of pixels along a side. -/
def side (w : Window) : Nat := 2 * w.margin + 1

/-- The number of pixels. -/
def area (w : Window) : Nat := w.side * w.side

end Window

/-- The distance in pixels between neighbouring features. -/
structure Stride where
  /-- The distance. -/
  step : Nat
  /-- It is positive. -/
  one_le : 1 ≤ step
deriving DecidableEq

/-- A valid configuration. -/
structure Settings where
  /-- The order of the polynomial. -/
  order : Order
  /-- The window. -/
  window : Window
  /-- The stride. -/
  stride : Stride
deriving DecidableEq

/-! ## Reading settings -/

/-- A value as a whole number. Truth values are refused, although they count as numbers. -/
def wholeSetting (name : SettingName) : Value → Except Fault Int
  | .int n => .ok n
  | v => .error (.showing [v] (.setting (.notInteger name v)))

/-- Reads an order. -/
def Order.ofValue (v : Value) : Except Fault Order := do
  let n ← wholeSetting .order v
  if h : 1 ≤ n ∧ n ≤ 6 then
    return ⟨n.toNat, by omega, by omega⟩
  else throw (.showing [v] (.setting (.orderOutOfRange n)))

/-- Reads the side of a window: an odd number from three on. -/
def Window.ofValue (v : Value) : Except Fault Window := do
  let n ← wholeSetting .windowSize v
  if h : 3 ≤ n ∧ n % 2 = 1 then
    return ⟨(n / 2).toNat, by omega⟩
  else throw (.showing [v] (.setting (.badWindow n)))

/-- Reads a stride. -/
def Stride.ofValue (v : Value) : Except Fault Stride := do
  let n ← wholeSetting .downsample v
  if h : 1 ≤ n then
    return ⟨n.toNat, by omega⟩
  else throw (.showing [v] (.setting (.badStride n)))

/-- The order as a value. -/
def Order.value (k : Order) : Value := .int k.degree

/-- The side of the window as a value. -/
def Window.value (w : Window) : Value := .int w.side

/-- The stride as a value. -/
def Stride.value (d : Stride) : Value := .int d.step

namespace Settings

/-- The order that is used where none is given. -/
def defaultOrder : Order := ⟨3, by decide, by decide⟩

/-- The window that is used where none is given: thirteen pixels on a side. -/
def defaultWindow : Window := ⟨6, by decide⟩

/-- The stride that is used where none is given. -/
def defaultStride : Stride := ⟨1, by decide⟩

/-- Reads the three settings in turn; the first that is refused is reported. What is not given takes
its default. -/
def ofValues (order window stride : Option Value) : Except Fault Settings := do
  let order ← Order.ofValue (order.getD defaultOrder.value)
  let window ← Window.ofValue (window.getD defaultWindow.value)
  let stride ← Stride.ofValue (stride.getD defaultStride.value)
  return ⟨order, window, stride⟩

/-- The settings in a mapping. -/
def ofEntries (entries : List (Value × Value)) : Except Fault Settings :=
  ofValues (Value.field? "order" entries) (Value.field? "window_size" entries)
    (Value.field? "downsample" entries)

/-- The settings in a value that should be a mapping. -/
def ofMapping : Value → Except Fault Settings
  | .mapping entries => ofEntries entries
  | v => .error (.member (.missing v.kind "get"))

/-- The same stride with another order and window. -/
def withFit (s : Settings) (order window : Value) : Except Fault Settings :=
  ofValues (some order) (some window) (some s.stride.value)

/-- The text of a configuration. -/
def text (s : Settings) : Except ArgumentFault String :=
  textShowing [s.order.value, s.window.value, s.stride.value]
    ("PolyConfig(order=" ++ toString s.order.degree ++ ", window_size=" ++ toString s.window.side
      ++ ", downsample=" ++ toString s.stride.step ++ ")")

end Settings

end Facet
