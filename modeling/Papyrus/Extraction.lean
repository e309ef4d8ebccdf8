import Papyrus.Documentation
import Papyrus.Symbol
import Papyrus.Text.Lines

/-!
# Extraction

A file is read line by line. Each declaration gives one symbol, which is added to the
symbols of the file and, unless it is a script, to the members of its kind. A script line
changes the heading instead, which names the script that later members belong to. The file
declares one script: the one of its last script line, or else one named after the file,
with all members of the file whatever heading they stood under.
-/
namespace Papyrus

open Text

/-- The script in force at some point of a file. -/
structure Heading where
  name : String
  parent : Option String
  deriving DecidableEq, Repr

/-- What a file declares: its symbols in source order, and the script, which is
missing only where neither the text nor the file gives it a name. -/
structure Extraction where
  symbols : List Symbol
  script : Option Script
  deriving DecidableEq, Repr

namespace Extraction

/-- The symbol for a declaration under a heading, documented by the lines above,
of which the nearest comes first. -/
def symbol (heading : Heading) (above : List (List Char)) (declaration : Declaration) : Symbol where
  name := declaration.name
  kind := declaration.kind
  detail := declaration.detail heading.name
  documentation := String.ofList (Documentation.ofAbove above)

/-- What was found in the lines read so far. -/
structure Progress where
  heading : Heading
  /-- The lines read, the nearest first. -/
  above : List (List Char) := []
  symbols : Array Symbol := #[]
  functions : Array Symbol := #[]
  events : Array Symbol := #[]
  properties : Array Symbol := #[]

namespace Progress

/-- Add the symbol of a declaration. -/
def add (progress : Progress) (declaration : Declaration) : Progress :=
  let symbol := symbol progress.heading progress.above declaration
  let added := { progress with symbols := progress.symbols.push symbol }
  match declaration with
  | .script name parent => { added with heading := ⟨name, parent⟩ }
  | .function .. => { added with functions := added.functions.push symbol }
  | .event .. => { added with events := added.events.push symbol }
  | .property .. => { added with properties := added.properties.push symbol }

/-- Read one more line. -/
def read (progress : Progress) (line : List Char) : Progress :=
  let added := match Declaration.ofLine? line with
    | some declaration => progress.add declaration
    | none => progress
  { added with above := line :: progress.above }

/-- The script that was found, if it has a name. -/
def script? (progress : Progress) : Option Script :=
  if progress.heading.name.isEmpty then none
  else some {
    name := progress.heading.name
    parent := progress.heading.parent
    functions := progress.functions.toList
    events := progress.events.toList
    properties := progress.properties.toList }

end Progress

/-- Everything that a text declares. The fallback names the script of a text that
has no script line. -/
def ofText (text : List Char) (fallback : String) : Extraction :=
  let found : Progress := (lines text).foldl Progress.read { heading := ⟨fallback, none⟩ }
  { symbols := found.symbols.toList, script := found.script? }

end Extraction

/-- The parent named by the last script line of a text, found without extracting
anything else. -/
def declaredParent (text : List Char) : Option String :=
  ((lines text).filterMap Declaration.script?).getLast?.bind fun declaration =>
    match declaration with
    | .script _ parent => parent
    | _ => none

end Papyrus
