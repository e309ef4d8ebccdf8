import Papyrus.Yaml.Cursor

/-!
# The tokens of YAML

Besides the marks that are written, tokens stand for the structure that indentation
gives: where a block sequence or mapping starts and ends, and where a key begins.
-/
namespace Papyrus.Yaml

/-- A unit of YAML text. -/
inductive Token where
  | version (major minor : Nat)
  | tagHandle (handle expansion : String)
  | documentStart
  | documentEnd
  | blockSequenceStart
  | blockMappingStart
  | blockEnd
  | flowSequenceStart
  | flowSequenceEnd
  | flowMappingStart
  | flowMappingEnd
  | blockEntry
  | flowEntry
  | key
  | value
  | alias (name : String)
  | anchor (name : String)
  | tag (handle suffix : String)
  | scalar (text : String) (plain : Bool)
  deriving DecidableEq, Repr

end Papyrus.Yaml
