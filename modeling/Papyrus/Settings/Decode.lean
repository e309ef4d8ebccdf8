import Papyrus.Settings
import Papyrus.Toml.Document

/-!
# Settings from TOML

The extension is a string and the extra directories are an array of strings; keys that
are no settings are ignored.
-/
namespace Papyrus.Settings

open Toml

/-- The text of a string. -/
def textOf : Value → Except Error String
  | .text content => .ok content
  | _ => .error .wrongType

/-- The paths of an array of strings. -/
def pathsOf : Value → Except Error (List Path)
  | .array items _ => items.mapM fun item => (textOf item).map Path.mk
  | _ => .error .wrongType

/-- The settings in a table. -/
def ofTable (table : Builder) : Except Error Settings := do
  let defaults : Settings := {}
  let extension ← (table.find? "extension").elim (.ok defaults.extension) textOf
  let extraRoots ← (table.find? "extra_roots").elim (.ok defaults.extraRoots) pathsOf
  return { extension, extraRoots }

/-- The settings that a text gives. -/
def ofText? (text : List Char) : Except Error Settings := do
  ofTable (← Document.ofText? text)

end Papyrus.Settings
