import Papyrus.Project
import Papyrus.Text.Blank
import Papyrus.Yaml.Node.Grammar

/-!
# Projects from YAML

A project file is a mapping. The fields of a project take the text of any scalar, as it
is written; keys that are no fields are ignored with whatever they hold. A field is given
at most once, while of a dependency that is given twice the last one counts. A text that
holds nothing describes the default project.
-/
namespace Papyrus.Project

open Yaml

/-- The text of a scalar. -/
def textOf (document : Document) (node : Node) : Except Error String :=
  match document.resolve node with
  | some (.scalar _ _ text) => .ok text
  | _ => .error .notText

/-- The spellings of the null value. -/
def isNull (text : String) : Bool :=
  ["null", "Null", "NULL", "~"].contains text

/-- The tag of the null value. -/
def nullTag : String := "tag:yaml.org,2002:null"

/-- Dependencies from a mapping of names to templates. A null or nothing counts as no
dependencies. -/
def dependenciesOf (document : Document) (node : Node) : Except Error (Table String String) :=
  match document.resolve node with
  | some (.mapping entries) =>
    entries.foldlM (fun table entry => do
      let name ← textOf document entry.1
      let template ← textOf document entry.2
      return table.insert name template) Table.empty
  | some (.scalar tag true text) =>
    if tag == some nullTag then
      if isNull text then .ok .empty else .error .notMapping
    else if text.isEmpty || (tag.isNone && isNull text) then .ok .empty
    else .error .notMapping
  | _ => .error .notMapping

/-- The names of the fields. -/
def fields : List String := ["name", "mods", "game", "scripts", "dependencies"]

/-- Set the field that a key names, given the keys that came before. -/
def setField (document : Document) (state : List String × Project) (entry : Node × Node) :
    Except Error (List String × Project) := do
  let key ← textOf document entry.1
  if !fields.contains key then return state
  if state.1.contains key then throw .duplicateField
  let project := state.2
  let project ←
    match key with
    | "name" => do pure { project with name := ← textOf document entry.2 }
    | "mods" => do pure { project with mods := ← textOf document entry.2 }
    | "game" => do pure { project with game := ← textOf document entry.2 }
    | "scripts" => do pure { project with scripts := ← textOf document entry.2 }
    | _ => do pure { project with dependencies := ← dependenciesOf document entry.2 }
  return (key :: state.1, project)

/-- The project that a document describes. -/
def ofDocument (document : Document) : Except Error Project :=
  match document.root with
  | none => .ok {}
  | some root =>
    match document.resolve root with
    | some (.mapping entries) =>
      (entries.foldlM (setField document) ([], {})).map (·.2)
    | some (.scalar _ true text) => if text.isEmpty then .ok {} else .error .notMapping
    | _ => .error .notMapping

/-- The project that a text describes. -/
def ofText? (text : List Char) : Except Error Project :=
  if (Text.trim text).isEmpty then .ok {}
  else do ofDocument (← Document.ofText? text)

end Papyrus.Project
