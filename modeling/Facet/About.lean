import Facet.Settings.Tree

/-!
# About the library

What a caller can find out about the library as a whole: its version, the names that it offers, and
the classes of its faults.
-/

namespace Facet.About

/-- The version. -/
def version : String := "1.0.0"

/-- The names that are offered, in order. -/
def offered : List String :=
  ["CorruptData", "DEFAULT_CONFIG", "InvalidConfiguration", "Point", "PolyConfig", "PolyImage",
    "PolyImageError", "Rectangle", "SingularFit", "UnsupportedPixelFormat", "deserialize",
    "deserialize_from", "load_config", "serialize", "serialize_to"]

/-- What each kind of the library's own faults counts as besides. -/
def lineages : List (Fault.Kind × List Fault.Kind) :=
  Fault.Kind.own.map fun kind => (kind, kind.lineage)

end Facet.About
