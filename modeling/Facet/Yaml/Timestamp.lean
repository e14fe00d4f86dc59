import Facet.Value.Basic
import Facet.Yaml.Cursor

/-!
# The spelling of dates and times

A date consists of a year of four digits, a month and a day. A time of day may follow after a `T` or
blanks, with a fraction of a second and the distance from universal time. Whether there is such a
date or time is another question.
-/

namespace Facet.Yaml

/-- The number that decimal digits spell. -/
def digitsValue (cs : List Char) : Nat := cs.foldl (fun n c => 10 * n + (c.toNat - 48)) 0

/-- A number of `least` to `most` digits, as many as there are, and what follows it. -/
def digitRun? (least most : Nat) (cs : List Char) : Option (Nat × List Char) :=
  let run := (cs.take most).takeWhile isDigit
  if run.length < least then none else some (digitsValue run, cs.drop run.length)

/-- What follows a given character. -/
def after? (mark : Char) : List Char → Option (List Char)
  | c :: rest => if c = mark then some rest else none
  | [] => none

/-- Spaces and tabs in front left out. -/
def skipBlanks (cs : List Char) : List Char := cs.dropWhile fun c => c = ' ' || c = '\t'

/-- The distance from universal time in minutes, at the end of a time: none, or after blanks a `Z`
or a sign with hours and perhaps minutes. -/
def zone? (cs : List Char) : Option (Option Int) :=
  if cs.isEmpty then some none
  else
    match skipBlanks cs with
    | ['Z'] => some (some 0)
    | sign :: rest => do
      if sign ≠ '+' ∧ sign ≠ '-' then none
      else
        let (hours, rest) ← digitRun? 1 2 rest
        let (minutes, rest) ←
          if rest.isEmpty then some (0, rest) else do digitRun? 2 2 (← after? ':' rest)
        let n : Int := 60 * hours + minutes
        if rest.isEmpty then return some (if sign = '-' then -n else n) else none
    | [] => none

/-- A fraction of a second in millionths, cut off behind the sixth digit, and what follows it. -/
def fraction (cs : List Char) : Nat × List Char :=
  match cs with
  | '.' :: rest =>
    let run := rest.takeWhile isDigit
    let six := run.take 6 ++ List.replicate (6 - run.length) '0'
    (digitsValue six, rest.drop run.length)
  | cs => (0, cs)

/-- What stands between a date and a time of day. -/
def timeBegins? : List Char → Option (List Char)
  | 'T' :: rest | 't' :: rest => some rest
  | cs => if (skipBlanks cs).length < cs.length then some (skipBlanks cs) else none

/-- The date or time that a text spells. -/
def timestamp? (cs : List Char) : Option Value := do
  let (year, rest) ← digitRun? 4 4 cs
  let (month, rest) ← digitRun? 1 2 (← after? '-' rest)
  let (day, rest) ← digitRun? 1 2 (← after? '-' rest)
  let date : Date := ⟨year, month, day⟩
  if rest.isEmpty then return .date date
  else
    let (hour, rest) ← digitRun? 1 2 (← timeBegins? rest)
    let (minute, rest) ← digitRun? 2 2 (← after? ':' rest)
    let (second, rest) ← digitRun? 2 2 (← after? ':' rest)
    let (micro, rest) := fraction rest
    return .moment ⟨date, hour, minute, second, micro, ← zone? rest⟩

/-- Whether a plain scalar spells a date or a time. In a date alone, month and day have two digits
each. -/
def isTimestamp (cs : List Char) : Bool :=
  match timestamp? cs with
  | some (.date _) => cs.length = 10
  | some _ => true
  | none => false

end Facet.Yaml
