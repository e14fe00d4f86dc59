import Facet.Fault

/-!
# A folder

A folder holds files and directories. A path consists of steps between slashes; empty steps and
single dots mean nothing, and a double dot leads back, though never out of the folder. There are two
ways to follow a path. By its text alone a double dot undoes the step before it, whatever is there.
Within a folder every step but the last has to end at a directory that exists. What the files
contain is left open.
-/

namespace Facet

/-- A place in a folder: the names that lead to it. -/
abbrev Path := List String

namespace Path

/-- The parts of a path between its slashes. -/
def parts (s : String) : List String := (s.toList.splitOn '/').map String.ofList

/-- Whether a part of a path leads anywhere: nothing and a single dot do not. -/
def isStep (part : String) : Bool := part != "" && part != "."

/-- The steps of a path. -/
def steps (s : String) : List String := (parts s).filter isStep

/-- The place to which a step leads from another place. -/
def follow (place : Path) (step : String) : Path :=
  if step = ".." then place.dropLast else place ++ [step]

/-- The place to which a path leads by its text alone. -/
def ofText (s : String) : Path := (steps s).foldl follow []

/-- The text of a place. -/
def text (p : Path) : String := String.intercalate "/" p

/-- The directory that a place lies in. -/
def parent (p : Path) : Path := p.dropLast

end Path

/-- Files and directories. The folder itself always exists. -/
structure Folder (β : Type) where
  /-- The name of the folder, as messages show it. -/
  root : String
  /-- The files. -/
  files : List (Path × β)
  /-- The directories. -/
  directories : List Path

namespace Folder

variable {β : Type}

/-- A folder that holds nothing. -/
def empty (root : String) : Folder β := ⟨root, [], []⟩

/-- A path within the folder, as messages show it. -/
def shown (f : Folder β) (path : String) : String := f.root ++ "/" ++ path

/-- Steps within the folder, as messages show them. -/
def shownSteps (f : Folder β) (steps : List String) : String :=
  String.intercalate "/" (f.root :: steps)

/-- What is found at a place. -/
inductive Entry (β : Type) where
  /-- Nothing. -/
  | nothing
  /-- A directory. -/
  | directory
  /-- A file. -/
  | file (content : β)

/-- What is at a place. -/
def at? (f : Folder β) (p : Path) : Entry β :=
  match f.files.lookup p with
  | some content => .file content
  | none => if p.isEmpty || f.directories.contains p then .directory else .nothing

/-! ## Following steps -/

/-- What stands in the way of what is to be done at the end of some steps. -/
inductive Obstacle where
  /-- A directory on the way is missing. -/
  | missing
  /-- There is a file on the way. -/
  | throughFile
  /-- There is a directory. -/
  | directory
  /-- There is a file. -/
  | file
deriving Repr, DecidableEq

/-- The fault of an obstacle, for a path as messages show it. -/
def Obstacle.fault (path : String) : Obstacle → FileFault
  | .missing => .missing path
  | .throughFile => .notDirectory path
  | .directory => .isDirectory path
  | .file => .occupied path

/-- The place to which a step leads. Nothing leads on from a place that is no directory. -/
def advance (f : Folder β) (place : Path) (step : String) : Except Obstacle Path :=
  match f.at? place with
  | .directory => .ok (place.follow step)
  | .file _ => .error .throughFile
  | .nothing => .error .missing

/-- The place to which steps lead. -/
def locate (f : Folder β) (steps : List String) : Except Obstacle Path :=
  steps.foldlM f.advance []

/-- What is found at the end of some steps; nothing if they lead nowhere. -/
def find (f : Folder β) (steps : List String) : Entry β :=
  match f.locate steps with
  | .ok place => f.at? place
  | .error _ => .nothing

/-! ## Reading and writing -/

/-- Puts a file at a place, in place of the one that was there. -/
def put (f : Folder β) (p : Path) (content : β) : Folder β :=
  { f with files := (p, content) :: f.files.filter fun other => other.1 != p }

/-- Reads the file at the end of some steps. -/
def readAt (f : Folder β) (steps : List String) : Except Obstacle β := do
  match f.at? (← f.locate steps) with
  | .file content => return content
  | .directory => throw .directory
  | .nothing => throw .missing

/-- Writes a file at the end of some steps. -/
def writeAt (f : Folder β) (steps : List String) (content : β) : Except Obstacle (Folder β) := do
  let place ← f.locate steps
  match f.at? place with
  | .directory => throw .directory
  | _ => return f.put place content

/-- Makes the directory at the end of some steps, if it is not there. -/
def makeLast (f : Folder β) (steps : List String) : Except Obstacle (Folder β) := do
  let place ← f.locate steps
  match f.at? place with
  | .directory => return f
  | .file _ => throw .file
  | .nothing => return { f with directories := place :: f.directories }

/-- Makes the directory at the end of some steps, which are given from the last to the first, and
those on the way to it where they are missing. What is made stays, even if something stands in the
way in the end. -/
def makeFrom (f : Folder β) : List String → Except FileFault Unit × Folder β
  | [] => (.ok (), f)
  | last :: before =>
    let steps := (last :: before).reverse
    let fault (o : Obstacle) : FileFault := o.fault (f.shownSteps steps)
    match f.makeLast steps with
    | .ok made => (.ok (), made)
    | .error .missing =>
      match f.makeFrom before with
      | (.ok (), made) =>
        match made.makeLast steps with
        | .ok made => (.ok (), made)
        | .error o => (.error (fault o), made)
      | refused => refused
    | .error o => (.error (fault o), f)

/-- Makes the directory at the end of some steps, and those on the way to it. -/
def makeDirectory (f : Folder β) (steps : List String) : Except FileFault Unit × Folder β :=
  f.makeFrom steps.reverse

/-- Writes a file at the end of some steps, in directories that are made if need be. -/
def save (f : Folder β) (steps : List String) (content : β) : Except FileFault Unit × Folder β :=
  match f.makeDirectory steps.dropLast with
  | (.ok (), made) =>
    match made.writeAt steps content with
    | .ok written => (.ok (), written)
    | .error o => (.error (o.fault (f.shownSteps steps)), made)
  | refused => refused

end Folder

end Facet
