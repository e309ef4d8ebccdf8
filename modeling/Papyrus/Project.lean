import Papyrus.Path
import Papyrus.Table
import Papyrus.Text.Replace

/-!
# Projects

A project says where its own scripts are and which other directories of scripts it
depends on. These paths are templates: they may name the other parts of the project in
braces. The names are filled in one after the other, in a fixed order, so a part that is
filled in early may itself name those that are filled in later.
-/
namespace Papyrus

/-- The description of a project. -/
structure Project where
  name : String := "Unknown Mod"
  mods : String := ""
  game : String := "sse"
  /-- The directory of the project's own scripts. -/
  scripts : String := ""
  /-- The directories of scripts that the project depends on, by name. -/
  dependencies : Table String String := .empty

/-- The parts of a project that a template can name. -/
inductive Placeholder where
  | mods
  | scripts
  | game
  | name
  deriving DecidableEq, Repr

namespace Placeholder

/-- A placeholder as it is written. -/
def pattern : Placeholder → List Char
  | .mods => "\x7bmods\x7d".toList
  | .scripts => "\x7bscripts\x7d".toList
  | .game => "\x7bgame\x7d".toList
  | .name => "\x7bname\x7d".toList

/-- What a placeholder stands for. -/
def value (project : Project) : Placeholder → List Char
  | .mods => project.mods.toList
  | .scripts => project.scripts.toList
  | .game => project.game.toList
  | .name => project.name.toList

/-- The order in which placeholders are filled in. -/
def order : List Placeholder := [.mods, .scripts, .game, .name]

end Placeholder

namespace Project

/-- Fill in placeholders in a given order. -/
def fill (project : Project) (order : List Placeholder) (template : List Char) : List Char :=
  order.foldl (fun text placeholder =>
    Text.replace placeholder.pattern (placeholder.value project) text) template

/-- A template with all placeholders filled in. -/
def resolve (project : Project) (template : String) : String :=
  String.ofList (project.fill Placeholder.order template.toList)

/-- The dependencies in the order of their names. -/
def sortedDependencies (project : Project) : List (String × String) :=
  project.dependencies.entries.mergeSort fun left right => left.1 ≤ right.1

/-- The templates of all directories to index: the project's own first, if it has one. -/
def templates (project : Project) : List String :=
  (if project.scripts.isEmpty then [] else [project.scripts]) ++
    project.sortedDependencies.map (·.2)

/-- The directories to index, taken relative to the workspace. -/
def roots (project : Project) (workspace : Path) : List Path :=
  project.templates.map fun template => workspace.join ⟨project.resolve template⟩

end Project
end Papyrus
