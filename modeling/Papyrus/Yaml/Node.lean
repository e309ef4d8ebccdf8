import Papyrus.Table

/-!
# The nodes of a YAML document

A document is a tree of scalars, sequences and mappings. An alias stands for a node that
was given a name elsewhere; it refers to that node by a number.
-/
namespace Papyrus.Yaml

/-- A node of a document. -/
inductive Node where
  | scalar (tag : Option String) (plain : Bool) (text : String)
  | sequence (items : List Node)
  | mapping (entries : List (Node × Node))
  | alias (anchor : Nat)

/-- A document: its node, where it has one, and what aliases stand for. -/
structure Document where
  root : Option Node
  anchors : Table Nat Node

namespace Node

/-- The node that is there where nothing is written. -/
def missing : Node := .scalar none true ""

end Node

namespace Document

/-- What a node is, with an alias replaced by what it stands for. An alias never stands
for another one. -/
def resolve (document : Document) : Node → Option Node
  | .alias anchor => document.anchors.find? anchor
  | node => some node

end Document
end Papyrus.Yaml
