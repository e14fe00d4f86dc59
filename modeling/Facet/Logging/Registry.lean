import Facet.Files.Folder
import Facet.Logging.Level
import Facet.Text.Lines

/-!
# Loggers

A logger writes the messages that reach its level to its handlers: the console, and any number of
files. Setting up a logger again changes its level, and adds a handler only for what has none yet.
Two paths mean the same file if they lead to the same place.
-/

namespace Facet

/-- Where a logger writes to. -/
inductive Handler where
  /-- The console. -/
  | console
  /-- A file. -/
  | file (place : Path)
deriving Repr, DecidableEq

namespace Handler

/-- The name of a handler's class. -/
def name : Handler → String
  | .console => "StreamHandler"
  | .file _ => "FileHandler"

/-- Whether a handler writes to a stream. Files are streams, too. -/
def isStream : Handler → Bool
  | .console | .file _ => true

/-- The place of the file that a handler writes to, if it is a handler for a file. -/
def file? : Handler → Option Path
  | .console => none
  | .file place => some place

end Handler

/-- A logger. -/
structure Logger where
  /-- The least level of messages that are written. -/
  level : Int
  /-- The level as it is shown: as a truth value if it was given as one. -/
  shown : Value
  /-- Where they are written, in the order of request. -/
  handlers : List Handler

namespace Logger

/-- The name of the logger above all others. -/
def rootName : String := "root"

/-- The name under which a logger is kept. Without a name the root is meant. -/
def keptName (name : String) : String := if name = "" then rootName else name

/-- A logger that was not set up. Of these only the root decides. -/
def fresh (name : String) : Logger :=
  let level := if keptName name = rootName then Level.fallback else Level.unset
  ⟨level, .int level, []⟩

/-- Whether a logger has a console handler: one for a stream that is no file. -/
def hasConsole (l : Logger) : Bool := l.handlers.any fun h => h.isStream && h.file?.isNone

/-- Whether a logger has a handler for the file at a place. -/
def hasFile (l : Logger) (p : Path) : Bool := l.handlers.any fun h => h.file? == some p

/-- Adds a handler behind those that are there. -/
def attach (l : Logger) (h : Handler) : Logger := { l with handlers := l.handlers ++ [h] }

/-- Adds a console handler unless there is one. -/
def attachConsole (l : Logger) : Logger := if l.hasConsole then l else l.attach .console

end Logger

/-- All loggers, with what they have written. -/
structure Registry where
  /-- The loggers. -/
  loggers : List (String × Logger)
  /-- The working folder. -/
  folder : Folder String
  /-- What was written to the console. -/
  console : String
  /-- What stands for the time in a message. -/
  clock : String

namespace Registry

/-- A registry without loggers. -/
def empty (folder : Folder String) (clock : String) : Registry := ⟨[], folder, "", clock⟩

/-- The logger of a name. -/
def logger (r : Registry) (name : String) : Logger :=
  (r.loggers.lookup (Logger.keptName name)).getD (.fresh name)

/-- Puts a logger under a name. -/
def put (r : Registry) (name : String) (l : Logger) : Registry :=
  let kept := Logger.keptName name
  { r with loggers := (kept, l) :: r.loggers.filter fun other => other.1 != kept }

/-- The place of a log file; no path and an empty path mean none. -/
def filePlace? (path : Option String) : Option Path :=
  match path with
  | none | some "" => none
  | some path => some (Path.ofText path)

/-- Opens a log file, in directories that are made if need be. A new file is empty. -/
def openFile (folder : Folder String) (p : Path) : Except Fault Unit × Folder String :=
  match folder.makeDirectory p.parent with
  | (.error cause, made) => (.error (.file cause), made)
  | (.ok (), made) =>
    match made.at? p with
    | .directory => (.error (.file (.isDirectory (folder.shownSteps p))), made)
    | .file _ => (.ok (), made)
    | .nothing => (.ok (), made.put p "")

/-- Gives a logger a file handler, if it has none for that file. -/
def addFile (r : Registry) (name : String) (p : Path) : Except Fault Unit × Registry :=
  let l := r.logger name
  if l.hasFile p then (.ok (), r)
  else
    match openFile r.folder p with
    | (.ok (), folder) => (.ok (), { r with folder }.put name (l.attach (.file p)))
    | (.error e, folder) => (.error e, { r with folder })

/-- Sets up a logger: its level, a console handler, and a file handler if there is a file. A level
that is refused changes nothing. -/
def setup (r : Registry) (name : String) (level : Option Value) (path : Option String) :
    Except Fault Unit × Registry :=
  let given := level.getD (.int Level.standard)
  match Level.ofValue given with
  | .error e => (.error (.argument e), r)
  | .ok level =>
    let shown := Level.shown given level
    let r := r.put name ({ r.logger name with level, shown }.attachConsole)
    match filePlace? path with
    | none => (.ok (), r)
    | some p => r.addFile name p

/-- The names that lead to a name, from itself to the first. -/
def ancestors (name : String) : List String :=
  let parts := name.splitOn "."
  ((List.range parts.length).map fun n => String.intercalate "." (parts.take (n + 1))).reverse

/-- The level that decides for a logger: its own, or that of the nearest one above that has one. Above
all others is the root. -/
def effectiveLevel (r : Registry) (name : String) : Int :=
  let levels := (ancestors name ++ [Logger.rootName]).map fun n => (r.logger n).level
  (levels.find? (· ≠ Level.unset)).getD Level.unset

/-- Appends a line to what a handler writes to. -/
def write (line : String) (r : Registry) : Handler → Registry
  | .console => { r with console := r.console ++ line }
  | .file p =>
    match r.folder.at? p with
    | .file text => { r with folder := r.folder.put p (text ++ line) }
    | _ => r

/-- Logs a message. Messages of level zero and below never pass. -/
def log (r : Registry) (name : String) (level : Value) (message : String) :
    Except Fault Unit × Registry :=
  match level.integer? with
  | none => (.error (.argument .notLevel), r)
  | some n =>
    if 0 < n ∧ r.effectiveLevel name ≤ n then
      match Level.text level with
      | .error e => (.error (.argument e), r)
      | .ok levelName =>
        let line := r.clock ++ " - " ++ Logger.keptName name ++ " - " ++ levelName ++ " - "
          ++ message ++ "\n"
        (.ok (), (r.logger name).handlers.foldl (write line) r)
    else (.ok (), r)

/-- The text of a file, if there is one at a path. -/
def textOf (r : Registry) (path : String) : Except Fault (Option String) :=
  match r.folder.find (Path.steps path) with
  | .file text => .ok (some (Text.withLineFeeds text))
  | .directory => .error (.file (.isDirectory (r.folder.shownSteps (Path.steps path))))
  | .nothing => .ok none

/-- The path of the log file of a session that began at a time, in a directory that is made if need
be. The file itself is not made. -/
def sessionFile (r : Registry) (directory time : String) : Except Fault String × Registry :=
  match r.folder.makeDirectory (Path.steps directory) with
  | (.ok (), folder) =>
    (.ok (r.folder.shown directory ++ "/polyimage_" ++ time ++ ".log"), { r with folder })
  | (.error cause, folder) => (.error (.file cause), { r with folder })

end Registry

end Facet
