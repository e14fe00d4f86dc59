/-!
# Lines of text

A line ends in a line feed, a carriage return, or both in turn.
-/

namespace Facet.Text

/-- Characters with every kind of line end made a line feed. -/
def unifyLineEnds : List Char → List Char
  | '\r' :: '\n' :: rest => '\n' :: unifyLineEnds rest
  | '\r' :: rest => '\n' :: unifyLineEnds rest
  | c :: rest => c :: unifyLineEnds rest
  | [] => []

/-- Text as it is read from a file: with every kind of line end made a line feed. -/
def withLineFeeds (s : String) : String := String.ofList (unifyLineEnds s.toList)

end Facet.Text
