import Facet.Text.Number
import Facet.Yaml.Timestamp

/-!
# What plain scalars mean

A plain scalar is nothing, a truth value, a whole number, a decimal number, a date or a time if it
is spelled like one, and text otherwise. Whole numbers may be written in base two, eight, ten,
sixteen or sixty; decimal numbers need a point, and the sign of an exponent must not be left out.
Underscores may stand between digits.
-/

namespace Facet.Yaml

/-- What a scalar is. -/
inductive ScalarKind where
  /-- Nothing. -/
  | null
  /-- A truth value. -/
  | bool
  /-- A whole number. -/
  | int
  /-- A decimal number. -/
  | float
  /-- A date, or a date with a time of day. -/
  | timestamp
  /-- Text. -/
  | text
  /-- The key under which other mappings are merged into one. -/
  | merge
  /-- The key that stands for the value of a mapping itself. -/
  | value
deriving Repr, DecidableEq

/-! ## Shapes of numbers -/

/-- Text without a sign in front. -/
def unsigned : List Char → List Char
  | '+' :: rest | '-' :: rest => rest
  | cs => cs

/-- A digit or an underscore. -/
def isDigitMark (c : Char) : Bool := isDigit c || c = '_'

/-- A digit, then digits and underscores. -/
def isDigits : List Char → Bool
  | c :: rest => isDigit c && rest.all isDigitMark
  | [] => false

/-- A number below sixty, of one or two digits. -/
def isSixtieth : List Char → Bool
  | [c] => isDigit c
  | [c, d] => '0' ≤ c && c ≤ '5' && isDigit d
  | _ => false

/-- Digits followed by one or more numbers below sixty, with colons between them. -/
def isSexagesimal (cs : List Char) : Bool :=
  match (String.ofList cs).splitOn ":" with
  | first :: second :: rest =>
    isDigits first.toList && (second :: rest).all fun part => isSixtieth part.toList
  | _ => false

/-- A whole number. -/
def isInt (cs : List Char) : Bool :=
  match unsigned cs with
  | ['0'] => true
  | '0' :: 'b' :: d :: rest => (d :: rest).all fun c => c = '0' || c = '1' || c = '_'
  | '0' :: 'x' :: d :: rest =>
    (d :: rest).all fun c =>
      isDigit c || ('a' ≤ c && c ≤ 'f') || ('A' ≤ c && c ≤ 'F') || c = '_'
  | '0' :: rest => !rest.isEmpty && rest.all fun c => ('0' ≤ c && c ≤ '7') || c = '_'
  | cs => isDigits cs || isSexagesimal cs

/-- An exponent with its sign, or none. -/
def isExponent : List Char → Bool
  | [] => true
  | e :: sign :: d :: rest =>
    (e = 'e' || e = 'E') && (sign = '+' || sign = '-') && (d :: rest).all isDigit
  | _ => false

/-- Digits and underscores, of which there may be none, and an exponent. -/
def isFraction (cs : List Char) : Bool := isExponent (cs.dropWhile isDigitMark)

/-- A decimal number. -/
def isFloat (cs : List Char) : Bool :=
  let magnitude := unsigned cs
  let whole := magnitude.takeWhile (· ≠ '.')
  match magnitude.dropWhile (· ≠ '.') with
  | '.' :: fraction =>
    (isDigits whole && isFraction fraction)
      || (isSexagesimal whole && fraction.all isDigitMark)
      || (whole.isEmpty && String.ofList fraction ∈ ["inf", "Inf", "INF"])
      || (cs.head? = some '.' && String.ofList fraction ∈ ["nan", "NaN", "NAN"])
      || (cs.head? = some '.' && (fraction.head?.any isDigit) && isFraction fraction)
  | _ => false

/-- The spellings of true. -/
def trueWords : List String := ["yes", "Yes", "YES", "true", "True", "TRUE", "on", "On", "ON"]

/-- The spellings of false. -/
def falseWords : List String := ["no", "No", "NO", "false", "False", "FALSE", "off", "Off", "OFF"]

/-- The spellings of nothing. -/
def nullWords : List String := ["~", "null", "Null", "NULL", ""]

/-- What a plain scalar is. -/
def ScalarKind.ofPlain (s : String) : ScalarKind :=
  if s ∈ nullWords then .null
  else if s ∈ trueWords ∨ s ∈ falseWords then .bool
  else if s = "<<" then .merge
  else if s = "=" then .value
  else if isFloat s.toList then .float
  else if isInt s.toList then .int
  else if isTimestamp s.toList then .timestamp
  else .text

end Facet.Yaml
