import Facet.Plane.Rectangle
import Facet.Settings.Basic

/-!
# Calls with a list of arguments

Points, rectangles and configurations can be made from a list of arguments. The list has to be as
long as the parameters allow; otherwise the fault names the parameters that are missing, or counts
the arguments, the implicit first one included.
-/

namespace Facet

/-- The parameters of a callable, besides the implicit first one. -/
structure Signature where
  /-- The name of the callable. -/
  name : String
  /-- The parameters that need an argument. -/
  required : List String
  /-- The number of further parameters that have a default. -/
  optional : Nat

namespace Signature

/-- Names in quotes, the last one joined by "and". -/
def enumerated (names : List String) : String :=
  let quoted := names.map fun n => "'" ++ n ++ "'"
  match quoted with
  | [a, b] => a ++ " and " ++ b
  | _ =>
    match quoted.getLast? with
    | some last =>
      if quoted.length = 1 then last
      else String.intercalate ", " quoted.dropLast ++ ", and " ++ last
    | none => ""

/-- A count with a noun, which takes an "s" unless there is one. -/
def counted (n : Nat) (noun : String) : String :=
  toString n ++ " " ++ noun ++ (if n = 1 then "" else "s")

/-- The arguments, if there are as many as the parameters allow. -/
def check {β : Type} (s : Signature) (arguments : List β) :
    Except MemberFault { xs : List β //
      s.required.length ≤ xs.length ∧ xs.length ≤ s.required.length + s.optional } :=
  let given := arguments.length
  let least := s.required.length
  let most := least + s.optional
  if hleast : given < least then
    let missing := s.required.drop given
    .error (.arity (s.name ++ "() missing "
      ++ counted missing.length "required positional argument" ++ ": " ++ enumerated missing))
  else if hmost : most < given then
    let range :=
      if s.optional = 0 then counted (most + 1) "positional argument"
      else "from " ++ toString (least + 1) ++ " to " ++ counted (most + 1) "positional argument"
    .error (.arity (s.name ++ "() takes " ++ range ++ " but " ++ toString (given + 1)
      ++ " were given"))
  else .ok ⟨arguments, Nat.le_of_not_lt hleast, Nat.le_of_not_lt hmost⟩

/-- The constructor of points. -/
def point : Signature := ⟨"Point.__new__", ["x", "y"], 0⟩

/-- The constructor of rectangles. -/
def rectangle : Signature := ⟨"Rectangle.__new__", ["left", "top", "right", "bottom"], 0⟩

/-- The constructor of configurations. -/
def settings : Signature := ⟨"PolyConfig.__init__", [], 3⟩

/-- The change of order and window of a configuration. -/
def withFit : Signature := ⟨"PolyConfig.with_fit", ["order", "window_size"], 0⟩

end Signature

/-- The point with the given coordinates. -/
def Point.ofArguments (arguments : List Int) : Except Fault Point := do
  let ⟨xs, hleast, _⟩ ← (Signature.point.check arguments).mapError .member
  have : 2 ≤ xs.length := hleast
  return ⟨xs[0], xs[1]⟩

/-- The rectangle with the given edges. -/
def Rectangle.ofArguments (arguments : List Int) : Except Fault Rectangle := do
  let ⟨xs, hleast, _⟩ ← (Signature.rectangle.check arguments).mapError .member
  have : 4 ≤ xs.length := hleast
  return ⟨xs[0], xs[1], xs[2], xs[3]⟩

/-- The configuration with the given settings. -/
def Settings.ofArguments (arguments : List Value) : Except Fault Settings := do
  let ⟨xs, _⟩ ← (Signature.settings.check arguments).mapError .member
  ofValues xs[0]? xs[1]? xs[2]?

/-- A configuration with the given order and window in place of its own. -/
def Settings.withFitArguments (s : Settings) (arguments : List Value) : Except Fault Settings := do
  let ⟨xs, hleast, _⟩ ← (Signature.withFit.check arguments).mapError .member
  have : 2 ≤ xs.length := hleast
  s.withFit xs[0] xs[1]

end Facet
