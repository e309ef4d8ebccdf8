import Papyrus.Completion.Context
import Papyrus.Inheritance

/-!
# Answering a completion request

Member access lists the members along the inheritance chain of its target. A general
request lists what the edited script inherits, then the symbols of all files; a name
that was listed is not listed again. The files are taken in the order given, which
callers are free to choose.
-/
namespace Papyrus.Completion

/-- What marks the detail of an inherited member. -/
def inheritedMark : String := " (inherited)"

/-- The first symbol of each name that is not among the names seen. -/
def firstOfName (seen : List String) : List Symbol → List Symbol
  | [] => []
  | symbol :: rest =>
    if seen.contains symbol.name then firstOfName seen rest
    else symbol :: firstOfName (symbol.name :: seen) rest

/-- A member as it is offered to a script that inherits it. -/
def asInherited (symbol : Symbol) : Symbol :=
  { symbol with detail := symbol.detail ++ inheritedMark }

/-- What a script with the given parent inherits: of each name the member of the most
derived script. -/
def inherited (index : Index) (parent : Option String) : List Symbol :=
  match parent with
  | none => []
  | some name => (firstOfName [] (Inheritance.members index name)).map asInherited

/-- The first symbol of each name in some files, apart from the names seen. -/
def elsewhere (seen : List String) (files : List (List Symbol)) : List Symbol :=
  firstOfName seen files.flatten

/-- The symbols offered in a context, with the files enumerated in the given order. -/
def queryOver (index : Index) (files : List (List Symbol)) : Context → List Symbol
  | .member target => Inheritance.members index target
  | .general parent =>
    let first := inherited index parent
    first ++ elsewhere (first.map (·.name)) files

/-- The symbols offered in a context. -/
def query (index : Index) (context : Context) : List Symbol :=
  queryOver index (index.files.entries.map (·.2)) context

end Papyrus.Completion
