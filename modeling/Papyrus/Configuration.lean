import Papyrus.Project.Decode
import Papyrus.Settings.Decode

/-!
# The configuration of a workspace

A workspace may hold a project file and a settings file. A file that is missing is no
error, and neither keeps the other from being used: what cannot be read is as good as not
there when the directories to index are worked out.
-/
namespace Papyrus

/-- Why a configuration file cannot be used. -/
inductive ConfigurationError where
  | read (path : Path) (cause : String)
  | project (path : Path) (cause : String)
  | settings (path : Path) (cause : String)
  deriving Repr

namespace ConfigurationError

/-- The error in words. -/
def message : ConfigurationError → String
  | .read path cause => "failed to read " ++ path.text ++ ": " ++ cause
  | .project path cause => "invalid project file " ++ path.text ++ ": " ++ cause
  | .settings path cause => "invalid settings file " ++ path.text ++ ": " ++ cause

end ConfigurationError

namespace Configuration

/-- The name of the project file. -/
def projectFile : Path := ⟨"project.yaml"⟩

/-- The name of the settings file. -/
def settingsFile : Path := ⟨".scribe.toml"⟩

/-- The text of a file, if it exists. -/
def readText (source : FileSource) (path : Path) :
    Except ConfigurationError (Option (List Char)) :=
  match source.read path with
  | .error .notFound => .ok none
  | .error error => .error (.read path error.message)
  | .ok octets =>
    match Text.Utf8.decode? octets with
    | some text => .ok (some text)
    | none => .error (.read path "stream did not contain valid UTF-8")

/-- The project of a workspace, if it has a project file. -/
def loadProject (source : FileSource) (workspace : Path) :
    Except ConfigurationError (Option Project) := do
  let path := workspace.join projectFile
  match ← readText source path with
  | none => return none
  | some text =>
    match Project.ofText? text with
    | .ok project => return some project
    | .error error => throw (.project path error.message)

/-- The settings of a workspace; the default ones if it has no settings file. -/
def loadSettings (source : FileSource) (workspace : Path) :
    Except ConfigurationError Settings := do
  let path := workspace.join settingsFile
  match ← readText source path with
  | none => return {}
  | some text =>
    match Settings.ofText? text with
    | .ok settings => return settings
    | .error error => throw (.settings path error.message)

/-- Add a path, unless an equal one is there. -/
def addRoot (roots : List Path) (root : Path) : List Path :=
  if roots.contains root then roots else roots ++ [root]

/-- The directories to index: those of the project, then those of the settings that are
not among them. -/
def roots (workspace : Path) (project : Option Project) (settings : Settings) : List Path :=
  let ofProject := (project.map (·.roots workspace)).getD []
  (settings.roots workspace).foldl addRoot ofProject

/-- The directories to index in a workspace and the settings used. -/
def load (source : FileSource) (workspace : Path) : List Path × Settings :=
  let settings := (loadSettings source workspace).toOption.getD {}
  let project := (loadProject source workspace).toOption.join
  (roots workspace project settings, settings)

end Configuration
end Papyrus
