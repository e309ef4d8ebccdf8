import Papyrus.Json.Text
import Papyrus.Protocol.Message
import Papyrus.Text.Utf8

/-!
# Messages on the wire

A message is a JSON text behind a header that gives its length in octets.
-/
namespace Papyrus.Protocol

/-- The wording of an error. -/
def ErrorCode.message : ErrorCode → String
  | .invalidRequest => "Invalid request"
  | .methodNotFound => "Method not found"
  | .invalidParams => "Invalid params"
  | .notInitialized => "Server not initialized"

/-- A reply as JSON, where there is one to send. -/
def Reply.toJson? : Reply → Option Json
  | .silence => none
  | .result id value =>
    some (.object [("jsonrpc", .text "2.0"), ("result", value), ("id", id)])
  | .error id code =>
    some (.object [
      ("jsonrpc", .text "2.0"),
      ("error", .object [("code", .number code.number 0), ("message", .text code.message)]),
      ("id", id)])

/-- A message of the server as JSON. One that waits for an answer carries a number. -/
def Outgoing.toJson (message : Outgoing) (number : Nat) : Json :=
  .object ([("jsonrpc", .text "2.0"), ("method", .text message.method), ("params", message.params)]
    ++ if message.isRequest then [("id", .ofNat number)] else [])

/-- A JSON value with its header. -/
def frame (value : Json) : List UInt8 :=
  let body := Text.Utf8.encode value.render
  Text.Utf8.encode ("Content-Length: " ++ toString body.length ++ "\r\n\r\n").toList ++ body

/-- The length that a line of a header gives. -/
def contentLength? (line : String) : Option Nat :=
  let name := "content-length:".toList
  let text := line.toList
  if (text.take name.length).map Char.toLower == name then
    let digits := (text.drop name.length).filter fun c => !c.isWhitespace
    if digits.isEmpty || !digits.all Char.isDigit then none else some (Json.Reading.digitsValue digits)
  else none

end Papyrus.Protocol
