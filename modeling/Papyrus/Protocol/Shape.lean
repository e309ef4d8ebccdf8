import Papyrus.Json
import Papyrus.Url

/-!
# Shapes of messages

The parameters of a message have to fit the shape that the protocol gives them, also
where nothing is done with them. Fields that a shape does not mention are ignored; a field
that may be left out may also be null.
-/
namespace Papyrus.Protocol

/-- What a JSON value has to look like. -/
inductive Shape where
  | anything
  | flag
  | text
  | url
  | word (choices : List String)
  /-- A whole number of a range. -/
  | integer (least greatest : Int)
  | list (item : Shape)
  | dictionary (item : Shape)
  | either (first second : Shape)
  /-- Both shapes at once. -/
  | both (first second : Shape)
  /-- Some object. -/
  | object
  /-- An object with a field. -/
  | required (key : String) (value : Shape)
  /-- An object that may have a field. -/
  | optional (key : String) (value : Shape)

namespace Shape

/-- Whether a value has a shape. -/
def accepts : Shape → Json → Bool
  | .anything, _ => true
  | .flag, .bool _ => true
  | .text, .text _ => true
  | .url, .text value => (Url.ofText? value.toList).isSome
  | .word choices, .text value => choices.contains value
  | .integer least greatest, .number value 0 => least ≤ value && value ≤ greatest
  | .list item, .array items => items.all item.accepts
  | .dictionary item, .object fields => fields.all fun field => item.accepts field.2
  | .either first second, value => first.accepts value || second.accepts value
  | .both first second, value => first.accepts value && second.accepts value
  | .object, .object _ => true
  | .required key shape, .object fields =>
    ((Json.object fields).field? key).any shape.accepts
  | .optional key shape, .object fields =>
    ((Json.object fields).present? key).all shape.accepts
  | _, _ => false

/-- An object with several properties. -/
def record (parts : List Shape) : Shape := parts.foldr .both .object

/-- A whole number of 32 bits without a sign. -/
def unsigned : Shape := .integer 0 4294967295

/-- A whole number of 32 bits with a sign. -/
def signed : Shape := .integer (-2147483648) 2147483647

/-- A position in a document. -/
def position : Shape := record [.required "line" unsigned, .required "character" unsigned]

/-- A part of a document. -/
def range : Shape := record [.required "start" position, .required "end" position]

/-- A reference to a document. -/
def document : Shape := .required "textDocument" (.required "uri" .url)

/-- A mark by which progress is reported. -/
def token : Shape := .either signed .text

/-- The marks by which the progress and the partial results of a request are reported. -/
def progress : Shape :=
  record [.optional "workDoneToken" token, .optional "partialResultToken" token]

/-- Parameters that refer to a document. -/
def inDocument (parts : List Shape) : Shape := record (document :: progress :: parts)

/-- Parameters that refer to a position in a document. -/
def atPosition (parts : List Shape) : Shape :=
  inDocument (.required "position" position :: parts)

/-- How a document is to be formatted. -/
def formatting : Shape :=
  .required "options" (record [.required "tabSize" unsigned, .required "insertSpaces" .flag])

/-- An item of a call or type hierarchy. -/
def hierarchyItem : Shape :=
  record [.required "name" .text, .required "kind" signed, .required "uri" .url,
    .required "range" range, .required "selectionRange" range]

/-- A problem found in a document. -/
def diagnostic : Shape := record [.required "range" range, .required "message" .text]

/-- Files that are named by addresses in a field. -/
def files (keys : List String) : Shape :=
  .required "files" (.list (record (keys.map fun key => .required key .text)))

/-- A folder of a workspace. -/
def folder : Shape := record [.required "uri" .url, .required "name" .text]

/-- What the editor says when it connects. -/
def initialization : Shape :=
  record [
    .optional "processId" unsigned,
    .optional "rootPath" .text,
    .optional "rootUri" .url,
    .required "capabilities" (record [
      .optional "workspace" .object,
      .optional "textDocument" .object,
      .optional "window" .object,
      .optional "general" .object,
      .optional "offsetEncoding" (.list .text)]),
    .optional "trace" (.word ["off", "messages", "verbose"]),
    .optional "workspaceFolders" (.list folder),
    .optional "clientInfo" (record [.required "name" .text, .optional "version" .text]),
    .optional "locale" .text,
    .optional "workDoneToken" token]

end Shape
end Papyrus.Protocol
