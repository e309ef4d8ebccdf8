import Papyrus.Completion.Context

/-!
# Completion items

An item is a symbol as the editor shows it. Its icon depends on the kind of the
symbol and, for functions, on whether a member was asked for. Documentation that is
empty is left out.
-/
namespace Papyrus.Completion

/-- The icon of an item. -/
inductive Icon where
  | method
  | function
  | type
  | property
  | event
  deriving DecidableEq, Repr

/-- An item of a completion list. The label is also what is inserted and what is
matched against the text typed so far. -/
structure Item where
  label : String
  icon : Icon
  detail : String
  documentation : Option String
  deriving DecidableEq, Repr

namespace Icon

/-- The number of an icon in the editor protocol. -/
def code : Icon → Nat
  | .method => 2
  | .function => 3
  | .type => 7
  | .property => 10
  | .event => 23

/-- The icon of a symbol: a function reads as a method where a member was asked
for. -/
def ofKind (context : Context) : Symbol.Kind → Icon
  | .script => .type
  | .function =>
    match context with
    | .member _ => .method
    | .general _ => .function
  | .event => .event
  | .property => .property

end Icon

namespace Item

/-- The item for a symbol. -/
def ofSymbol (context : Context) (symbol : Symbol) : Item where
  label := symbol.name
  icon := Icon.ofKind context symbol.kind
  detail := symbol.detail
  documentation := if symbol.documentation.isEmpty then none else some symbol.documentation

/-- The items for some symbols, in their order. -/
def ofSymbols (context : Context) (symbols : List Symbol) : List Item :=
  symbols.map (ofSymbol context)

end Item
end Papyrus.Completion
