import Facet.Files.Folder
import Facet.Settings.Tree
import Facet.Text.Lines
import Facet.Yaml.Document

/-!
# Configuration files

A configuration may be kept in a file that holds a YAML document.
-/

namespace Facet.Settings

/-- The configuration in a file, laid over the defaults. -/
def load (folder : Folder String) (path : String) : Except Fault (List (Value × Value)) :=
  match folder.find (Path.steps path) with
  | .nothing => .error (.file (.noDocument (folder.shown path)))
  | .directory => .error (.file (.isDirectory (folder.shown path)))
  | .file text => do ofDocument (folder.shown path) (← Yaml.read (Text.withLineFeeds text))

end Facet.Settings
