import Papyrus.Declaration

/-!
# Symbols and scripts

A symbol is one declaration as it is offered to the editor. A script is the unit of
inheritance: its name, the name of the script it extends, and its members by kind.
Both are plain values; nothing checks that a parent exists.
-/
namespace Papyrus

/-- What a symbol was declared as. -/
inductive Symbol.Kind where
  | script
  | function
  | event
  | property
  deriving DecidableEq, Repr

/-- A named declaration. The detail says where it belongs; the documentation is
empty where no comment was found. -/
structure Symbol where
  name : String
  kind : Symbol.Kind
  detail : String
  documentation : String
  deriving DecidableEq, Repr

/-- A script with its own members, each kind in source order. -/
structure Script where
  name : String
  parent : Option String
  functions : List Symbol
  events : List Symbol
  properties : List Symbol
  deriving DecidableEq, Repr

namespace Script

/-- A script's own members: functions, then events, then properties. -/
def members (script : Script) : List Symbol :=
  script.functions ++ script.events ++ script.properties

/-- The name under which a script is looked up: letter case does not matter. -/
def key (name : String) : String :=
  Text.foldCase name

end Script

namespace Declaration

/-- The declared name. -/
def name : Declaration → String
  | .script name _ | .function name _ | .event name | .property name _ => name

/-- The kind of symbol that a declaration gives. -/
def kind : Declaration → Symbol.Kind
  | .script .. => .script
  | .function .. => .function
  | .event .. => .event
  | .property .. => .property

/-- Where a declaration belongs: a script names its parent, anything else the
script that it stands in. -/
def detail (owner : String) : Declaration → String
  | .script _ (some parent) => "Script extends " ++ parent
  | .script _ none => "Script"
  | .function .. => "Function in " ++ owner
  | .event .. => "Event in " ++ owner
  | .property _ type => type ++ " Property in " ++ owner

end Declaration
end Papyrus
