import Papyrus.Protocol.Message
import Papyrus.Protocol.Method
import Papyrus.Session

/-!
# The server

A server takes messages one after the other. It works between a successful `initialize`
and `shutdown`; before and after, requests are refused and notifications are ignored.
Behind `exit` it takes no more messages. A method that the protocol does not have is
refused at any time.
-/
namespace Papyrus.Protocol

/-- Where a server is in its life. -/
inductive Phase where
  | fresh
  | running
  | shutDown
  | exited
  deriving DecidableEq, Repr

/-- A server with its session. -/
structure Server where
  phase : Phase := .fresh
  session : Session := {}

/-- What a message brings about. -/
structure Response where
  reply : Reply := .silence
  messages : List Outgoing := []

namespace Server

/-- The error for a request that comes at the wrong time. -/
def refusal (phase : Phase) : ErrorCode :=
  match phase with
  | .fresh => .notInitialized
  | _ => .invalidRequest

/-- The address in a field. -/
def urlOf (value : Json) (key : String) : Option Url :=
  ((value.present? key).bind Json.text?).bind fun text => Url.ofText? text.toList

/-- The document that parameters refer to. -/
def documentOf (params : Json) : Option Url :=
  (params.field? "textDocument").bind (urlOf · "uri")

/-- The text in a field. -/
def textOf (value : Json) (key : String) : String :=
  ((value.field? key).bind Json.text?).getD ""

/-- The number in a field. -/
def numberOf (value : Json) (key : String) : Int :=
  ((value.field? key).bind Json.integer?).getD 0

/-- The items in a field. -/
def itemsOf (value : Json) (key : String) : List Json :=
  ((value.field? key).bind Json.items?).getD []

/-- Take over the workspace that the editor names. -/
def connect (server : Server) (params : Json) : Server :=
  let folders := (itemsOf params "workspaceFolders").filterMap (urlOf · "uri")
  { phase := .running
    session := server.session.connect (urlOf params "rootUri") folders }

/-- What a scan has to report, where it took so many milliseconds. -/
def scanReport (elapsed : String) : Option ScanStats → String
  | some stats =>
    serverName ++ " indexed " ++ toString stats.indexed ++ " files in " ++ elapsed ++ "ms"
  | none => serverName ++ " skipped indexing: a scan is already running"

/-- Start work: index the workspace and have its files watched. -/
def start (session : Session) (source : FileSource) (elapsed : String) : List Outgoing × Session :=
  match session.prepareScan source with
  | (none, session) =>
    ([logMessage (serverName ++ " initialized without a workspace root, nothing to index")],
      session)
  | (some roots, session) =>
    let (stats, scanned) := session.scan source roots
    ([watchFiles session.indexer.extension, logMessage (scanReport elapsed stats)], scanned)

/-- Carry out a notification whose parameters have the right shape. -/
def notified (session : Session) (source : FileSource) (elapsed : String) (params : Json) :
    Action → List Outgoing × Session
  | .initialized => start session source elapsed
  | .didOpen =>
    match documentOf params, params.field? "textDocument" with
    | some url, some document => ([], session.openDocument url (textOf document "text"))
    | _, _ => ([], session)
  | .didChange =>
    match documentOf params with
    | some url =>
      ([], session.changeDocument url ((itemsOf params "contentChanges").map (textOf · "text")))
    | none => ([], session)
  | .didClose =>
    match documentOf params with
    | some url => ([], session.closeDocument url)
    | none => ([], session)
  | .didChangeFiles =>
    let changes := (itemsOf params "changes").filterMap fun change =>
      (urlOf change "uri").map fun url => (url, FileChange.ofCode (numberOf change "type"))
    ([], session.filesChanged source changes)
  | .completion => ([], session)

/-- The result of a completion request whose parameters have the right shape. -/
def completion (session : Session) (source : FileSource) (params : Json) : Json :=
  match documentOf params, params.field? "position" with
  | some url, some position =>
    let line := (numberOf position "line").toNat
    let column := (numberOf position "character").toNat
    match session.complete? source url line column with
    | some items => .array (items.map itemJson)
    | none => .null
  | _, _ => .null

/-- Parameters, if they have a shape. -/
def shaped (shape : Shape) (params : Option Json) : Option Json :=
  params.filter shape.accepts

/-- Deal with a message. Files are as the source has them at that time; how long a scan
takes is given in milliseconds. None once the server has exited. -/
def receive (server : Server) (source : FileSource) (elapsed : String) (message : Incoming) :
    Option Response × Server :=
  let respond (reply : Reply) : Option Response × Server := (some { reply }, server)
  let id := message.id
  if server.phase = .exited then (none, server)
  else
    match Method.ofName? message.method with
    | none =>
      if message.method.startsWith "$/" then respond .silence
      else respond (.errorFor id .methodNotFound)
    | some .exit => (some {}, { server with phase := .exited })
    | some .connect =>
      if server.phase = .fresh then
        match id, shaped .initialization message.params with
        | none, _ => respond .silence
        | some id, none => respond (.error id .invalidParams)
        | some id, some params =>
          (some { reply := .result id capabilities }, server.connect params)
      else respond (.errorFor id .invalidRequest)
    | some .shutdown =>
      if server.phase = .running then
        let reply :=
          if message.params.isSome then Reply.errorFor id .invalidParams
          else .resultFor id .null
        (some { reply }, { server with phase := .shutDown })
      else respond (.errorFor id (refusal server.phase))
    | some (.notification shape action) =>
      if server.phase = .running then
        match id, shaped shape message.params, action with
        | none, some params, some action =>
          let (messages, session) := notified server.session source elapsed params action
          (some { messages }, { server with session })
        | _, _, _ => respond .silence
      else respond (.errorFor id (refusal server.phase))
    | some (.request shape action) =>
      if server.phase = .running then
        match shaped shape message.params, action with
        | none, _ => respond (.errorFor id .invalidParams)
        | some params, some .completion =>
          respond (.resultFor id (completion server.session source params))
        | some _, _ => respond (.errorFor id .methodNotFound)
      else respond (.errorFor id (refusal server.phase))

end Server
end Papyrus.Protocol
