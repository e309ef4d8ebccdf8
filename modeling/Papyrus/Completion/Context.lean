import Papyrus.Extraction

/-!
# What a completion request asks for

An identifier with a dot directly before the cursor asks for the members of that
script. Everything else is a general request, which knows the parent of the script
being edited, if that script names one.
-/
namespace Papyrus.Completion

open Text

/-- The kind of a completion request. -/
inductive Context where
  /-- The members of a named script. -/
  | member (target : String)
  /-- Everything that can stand on its own, given the parent of the script that is
  being edited. -/
  | general (parent : Option String)
  deriving DecidableEq, Repr

namespace Context

/-- The identifier in front of a dot that ends the text. The dot is the very last
character, and the identifier reaches back as far as word characters do. -/
def target? (preceding : List Char) : Option (List Char) :=
  match preceding.reverse with
  | '.' :: backwards => (word? backwards).map fun (word, _) => word.reverse
  | _ => none

/-- The context of a request, from the text between the start of the line and the
cursor and from the document, where there is one. -/
def detect (preceding : List Char) (document : Option (List Char)) : Context :=
  match target? preceding with
  | some target => .member (String.ofList target)
  | none => .general (document.bind declaredParent)

end Context
end Papyrus.Completion
