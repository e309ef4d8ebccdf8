import Papyrus.Completion.Query

/-!
# Answers independent of the order of files

A general request depends on the order in which files are enumerated only where
files disagree about a name. This module gives the part of an answer that holds for
every order: inherited members in their order, then the remaining names sorted, each
with its symbol where all files agree on it and otherwise with the number of
candidates. It is found with the files in any one order, and comes out the same from all.
-/
namespace Papyrus.Completion

/-- What is certain about a name. -/
inductive Offer (α : Type) where
  /-- Every order of files gives this answer. -/
  | agreed (answer : α)
  /-- The answer depends on the order, and is one of so many. -/
  | contested (name : String) (candidates : Nat)
  deriving Repr

/-- An answer with its certain order apart from its unordered rest. -/
structure Stable (α : Type) where
  ordered : List α
  rest : List (Offer α)
  deriving Repr

/-- The distinct symbols that files give first for a name. -/
def candidates (files : List (List Symbol)) (name : String) : List Symbol :=
  (files.filterMap fun symbols => symbols.find? (·.name = name)).eraseDups

/-- What is certain about a name. A name that only one symbol was found for is agreed on. -/
def offer (files : List (List Symbol)) (name : String) : Offer Symbol :=
  match candidates files name with
  | [symbol] => .agreed symbol
  | several => .contested name several.length

/-- The part of an answer that holds for every order, with the files enumerated in the given
one. -/
def stableQueryOver (index : Index) (files : List (List Symbol)) : Context → Stable Symbol
  | .member target => ⟨Inheritance.members index target, []⟩
  | .general parent =>
    let first := inherited index parent
    let names := (elsewhere (first.map (·.name)) files).map (·.name)
    ⟨first, names.mergeSort.map (offer files)⟩

/-- The part of the answer that does not depend on the order of files. -/
def stableQuery (index : Index) (context : Context) : Stable Symbol :=
  stableQueryOver index (index.files.entries.map (·.2)) context

namespace Offer

/-- Change the answer, where there is one. -/
def map {α β : Type} (change : α → β) : Offer α → Offer β
  | .agreed answer => .agreed (change answer)
  | .contested name candidates => .contested name candidates

end Offer

namespace Stable

/-- Change every answer. -/
def map {α β : Type} (change : α → β) (stable : Stable α) : Stable β :=
  ⟨stable.ordered.map change, stable.rest.map (·.map change)⟩

end Stable
end Papyrus.Completion
