import Facet.Decimal.Layout
import Facet.Text.Number
import Facet.Text.Quoted
import Facet.Value.Basic

/-!
# Values as text

Messages show a value in one of two ways. `shown` is unmistakable: text stands in quotes, so that
`3` and `'3'` differ. `plain` is for reading: a text stands as it is, while everything inside a
list or a mapping is still shown.
-/

namespace Facet

namespace Value

/-- Text between brackets, items separated by commas. -/
def enclosed (opening closing : String) (items : List String) : String :=
  opening ++ String.intercalate ", " items ++ closing

mutual

/-- The unmistakable text of a value. -/
def shown : Value → String
  | .null => "None"
  | .bool b => if b then "True" else "False"
  | .int n => toString n
  | .float x => Decimal.text x
  | .text s => Text.quoted s
  | .bytes data => Text.quotedBytes data
  | .date d => d.shown
  | .moment m => m.shown
  | .list items => enclosed "[" "]" (shownItems items)
  | .mapping entries => enclosed "\x7b" "\x7d" (shownEntries entries)

/-- The texts of the items of a list. -/
def shownItems : List Value → List String
  | [] => []
  | v :: rest => shown v :: shownItems rest

/-- The texts of the entries of a mapping. -/
def shownEntries : List (Value × Value) → List String
  | [] => []
  | (k, v) :: rest => (shown k ++ ": " ++ shown v) :: shownEntries rest

end

/-- The readable text of a value: a text as it is, a date or a time without its parts being named,
all else as `shown`. -/
def plain : Value → String
  | .text s => s
  | .date d => d.plain
  | .moment m => m.plain
  | v => v.shown

mutual

/-- Whether every whole number in a value is short enough to be shown. -/
def isShowable : Value → Bool
  | .int n => Text.isShowable n
  | .list items => areShowable items
  | .mapping entries => hasShowableEntries entries
  | _ => true

/-- Whether every whole number in some values is short enough to be shown. -/
def areShowable : List Value → Bool
  | [] => true
  | v :: rest => isShowable v && areShowable rest

/-- Whether every whole number in some entries is short enough to be shown. -/
def hasShowableEntries : List (Value × Value) → Bool
  | [] => true
  | (k, v) :: rest => isShowable k && isShowable v && hasShowableEntries rest

end

/-- Some values can be shown if each of them can. -/
theorem areShowable_iff (values : List Value) :
    areShowable values = true ↔ ∀ v ∈ values, v.isShowable = true := by
  induction values with
  | nil => simp [areShowable]
  | cons v rest ih => simp [areShowable, ih]

/-- The shown text of a value, cut off after so many characters. -/
def shownUpTo (count : Nat) (v : Value) : String :=
  match v with
  | .bytes data => String.ofList ((Text.quotedBytes (data.take count)).toList.take count)
  | v => String.ofList (v.shown.toList.take count)

end Value

/-- A list of numbers in round brackets; a single one is followed by a comma. -/
def tupleText {α : Type} [ToString α] : List α → String
  | [x] => "(" ++ toString x ++ ",)"
  | xs => "(" ++ String.intercalate ", " (xs.map toString) ++ ")"

end Facet
