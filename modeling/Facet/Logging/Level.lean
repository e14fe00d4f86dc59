import Facet.Fault

/-!
# Log levels

A level is an integer. Five of them have names, two of those have a second one, and zero is the
level of a logger that leaves the decision to others.
-/

namespace Facet.Level

/-- The level at which nothing was decided. -/
def unset : Int := 0

/-- The level of a logger for which none is given. -/
def standard : Int := 20

/-- The level of the root until it is set up, at which messages pass where no other logger decides. -/
def fallback : Int := 30

/-- The levels that can be given by name. -/
def byName : List (String × Int) :=
  [("CRITICAL", 50), ("FATAL", 50), ("ERROR", 40), ("WARN", 30), ("WARNING", 30), ("INFO", 20),
    ("DEBUG", 10), ("NOTSET", 0)]

/-- The names under which levels are shown. -/
def names : List (Int × String) :=
  [(50, "CRITICAL"), (40, "ERROR"), (30, "WARNING"), (20, "INFO"), (10, "DEBUG"), (0, "NOTSET")]

/-- Reads a level: an integer, or a name in capital letters. -/
def ofValue (v : Value) : Except ArgumentFault Int :=
  match v with
  | .bool _ | .int _ => .ok (v.integer?.getD unset)
  | .text name =>
    match byName.lookup name with
    | some level => .ok level
    | none => .error (.unknownLevel v)
  | _ => .error (.showing [v] (.badLevel v))

/-- A level as it is shown: by its number, or by the truth value that stands for it. -/
def shown (given : Value) (level : Int) : Value :=
  match given with
  | .bool b => .bool b
  | _ => .int level

/-- The name of a level; one without a name is shown as it is, if it can be shown. -/
def text (level : Value) : Except ArgumentFault String :=
  match level.integer?.bind fun n => names.lookup n with
  | some name => .ok name
  | none => textShowing [level] ("Level " ++ level.plain)

end Facet.Level
