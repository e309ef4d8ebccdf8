import Papyrus.Indexer

/-!
# Settings

The settings of a workspace: the extension of its source files, and directories to index
besides those of the project.
-/
namespace Papyrus

/-- The settings of a workspace. -/
structure Settings where
  /-- The extension of source files, with or without its dot. -/
  extension : String := defaultExtension
  extraRoots : List Path := []

namespace Settings

/-- The extension without its dot. -/
def bareExtension (settings : Settings) : String :=
  Papyrus.bareExtension settings.extension

/-- The extra directories, taken relative to the workspace. -/
def roots (settings : Settings) (workspace : Path) : List Path :=
  settings.extraRoots.map workspace.join

end Settings
end Papyrus
