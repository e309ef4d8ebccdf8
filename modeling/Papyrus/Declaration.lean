import Papyrus.Text.Word

/-!
# Declarations

A declaration occupies one line, so each line is recognised on its own:

    ScriptName MyQuest extends Quest
    Int Function GetCount()
    Event OnInit()
    Actor Property PlayerRef Auto

Keywords are whole words in any letter case. Names, parents and types are given
exactly as they are written. A line that fits no shape declares nothing.
-/
namespace Papyrus

open Text

/-- What a line declares. -/
inductive Declaration where
  /-- The script itself, with the script it extends. -/
  | script (name : String) (parent : Option String)
  /-- A function, with its result type. -/
  | function (name : String) (result : Option String)
  /-- An event handler. -/
  | event (name : String)
  /-- A property, with its type. -/
  | property (name : String) (type : String)
  deriving DecidableEq, Repr

namespace Declaration

/-- A leading type: a word, with `[]` directly after it for an array. -/
def type? (text : List Char) : Option (List Char × List Char) :=
  match word? text with
  | some (word, '[' :: ']' :: rest) => some (word ++ ['[', ']'], rest)
  | other => other

/-- The leading word, if an opening parenthesis follows it, with or without blanks
between the two. -/
def callee? (text : List Char) : Option (List Char) :=
  match word? text with
  | some (name, rest) => if (trimStart rest).head? = some '(' then some name else none
  | none => none

/-- A type, blanks, then a keyword and its blanks: the type and what follows. -/
def typedKeyword? (keyword : List Char) (text : List Char) : Option (List Char × List Char) := do
  let (type, rest) ← type? text
  let rest ← afterBlanks? rest
  let rest ← afterKeyword? keyword rest
  return (type, rest)

/-- The script extended, from the text after a script's name. -/
def parent? (text : List Char) : Option (List Char) := do
  let rest ← afterKeyword? "extends".toList (trimStart text)
  let (parent, _) ← word? rest
  return parent

/-- `ScriptName Name`, optionally followed by `extends Parent`. Anything may stand
after the name; it counts as a parent only if it reads as one. -/
def script? (line : List Char) : Option Declaration := do
  let rest ← afterKeyword? "ScriptName".toList (trimStart line)
  let (name, rest) ← word? rest
  return .script (String.ofList name) ((parent? rest).map String.ofList)

/-- `Function Name(`, for a function without a result. -/
def procedure? (line : List Char) : Option Declaration := do
  let rest ← afterKeyword? "Function".toList (trimStart line)
  let name ← callee? rest
  return .function (String.ofList name) none

/-- `Type Function Name(`. -/
def typedFunction? (line : List Char) : Option Declaration := do
  let (type, rest) ← typedKeyword? "Function".toList (trimStart line)
  let name ← callee? rest
  return .function (String.ofList name) (some (String.ofList type))

/-- A function, with or without a result type. -/
def function? (line : List Char) : Option Declaration :=
  procedure? line <|> typedFunction? line

/-- `Event Name(`. -/
def event? (line : List Char) : Option Declaration := do
  let rest ← afterKeyword? "Event".toList (trimStart line)
  let name ← callee? rest
  return .event (String.ofList name)

/-- `Type Property Name`. -/
def property? (line : List Char) : Option Declaration := do
  let (type, rest) ← typedKeyword? "Property".toList (trimStart line)
  let (name, _) ← word? rest
  return .property (String.ofList name) (String.ofList type)

/-- What a line declares. A line may read both as a script declaration and as a
function or a property, such as `ScriptName Function F(`; then it is the script. -/
def ofLine? (line : List Char) : Option Declaration :=
  script? line <|> function? line <|> event? line <|> property? line

end Declaration
end Papyrus
