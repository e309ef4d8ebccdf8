import Papyrus.Completion.Item
import Papyrus.Json

/-!
# Messages

Messages go both ways. The editor sends requests and notifications; the server replies to
requests by a result or by an error, and sends messages of its own.
-/
namespace Papyrus.Protocol

/-- The errors that a request can be answered by. -/
inductive ErrorCode where
  | invalidRequest
  | methodNotFound
  | invalidParams
  | notInitialized
  deriving DecidableEq, Repr

/-- The number of an error. -/
def ErrorCode.number : ErrorCode → Int
  | .invalidRequest => -32600
  | .methodNotFound => -32601
  | .invalidParams => -32602
  | .notInitialized => -32002

/-- A message from the editor. A request has an identifier, which may be null. -/
structure Incoming where
  method : String
  id : Option Json
  params : Option Json

/-- A message from the server on its own account. -/
structure Outgoing where
  method : String
  params : Json
  /-- Whether the editor has to answer. -/
  isRequest : Bool

/-- The answer to a message. -/
inductive Reply where
  /-- None, to a notification. -/
  | silence
  | result (id : Json) (value : Json)
  | error (id : Json) (code : ErrorCode)

namespace Incoming

/-- Whether a value identifies a request: a whole number of 64 bits, a string or null. -/
def isId : Json → Bool
  | .number value 0 => -9223372036854775808 ≤ value && value ≤ 9223372036854775807
  | .text _ | .null => true
  | _ => false

/-- The message that a value stands for. -/
def ofJson? (value : Json) : Option Incoming := do
  let version ← (value.field? "jsonrpc").bind Json.text?
  let method ← (value.field? "method").bind Json.text?
  let id := value.field? "id"
  if version == "2.0" && id.all isId then
    return { method, id, params := value.field? "params" }
  else none

end Incoming

namespace Reply

/-- A result for a request, and nothing for a notification. -/
def resultFor (id : Option Json) (value : Json) : Reply :=
  match id with
  | some id => .result id value
  | none => .silence

/-- An error for a request, and nothing for a notification. -/
def errorFor (id : Option Json) (code : ErrorCode) : Reply :=
  match id with
  | some id => .error id code
  | none => .silence

end Reply

/-- A completion item as the editor expects it. -/
def itemJson (item : Completion.Item) : Json :=
  .object ([
    ("label", .text item.label),
    ("kind", .ofNat item.icon.code),
    ("detail", .text item.detail)] ++
    (match item.documentation with
      | none => []
      | some words =>
        [("documentation", .object [("kind", .text "markdown"), ("value", .text words)])]) ++
    [("insertText", .text item.label), ("filterText", .text item.label)])

/-- The name of the server. -/
def serverName : String := "Scribe"

/-- The version of the server. -/
def serverVersion : String := "0.1.0"

/-- What the server tells the editor about itself: it completes names, above all behind a
dot or a parenthesis, and wants changed documents whole. -/
def capabilities : Json :=
  .object [
    ("capabilities", .object [
      ("textDocumentSync", .ofNat 1),
      ("completionProvider", .object [
        ("resolveProvider", .bool false),
        ("triggerCharacters", .array [.text ".", .text "("])])]),
    ("serverInfo", .object [("name", .text serverName), ("version", .text serverVersion)])]

/-- Ask the editor to watch the source files of the workspace. -/
def watchFiles (extension : String) : Outgoing where
  method := "client/registerCapability"
  isRequest := true
  params := .object [("registrations", .array [.object [
    ("id", .text "scribe-source-watcher"),
    ("method", .text "workspace/didChangeWatchedFiles"),
    ("registerOptions", .object [("watchers", .array [.object [
      ("globPattern", .text ("**/*." ++ extension))]])])]])]

/-- Tell the user something. -/
def logMessage (text : String) : Outgoing where
  method := "window/logMessage"
  isRequest := false
  params := .object [("type", .ofNat 3), ("message", .text text)]

end Papyrus.Protocol
