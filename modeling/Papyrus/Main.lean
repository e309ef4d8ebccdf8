import Papyrus.CommandLine
import Papyrus.FileSystem
import Papyrus.Protocol
import Papyrus.Protocol.Wire

/-!
# The program

The outer layer: it looks at files, reads messages and writes what comes of them. What
there is to say is worked out by the command line and the server.
-/
namespace Papyrus.Main

open FileSystem Protocol

/-- The files that a message names, wherever they stand in it. -/
def filesIn (params : Json) : List Path :=
  (params.textsUnder "uri").filterMap fun text => (Url.ofText? text.toList).bind (·.filePath?)

/-- What a message can be about: the files that it names, the configuration of the
workspace, and the trees that are to be indexed when work starts. -/
def lookAround (server : Server) (message : Incoming) : IO Snapshot := do
  let snapshot ← (filesIn (message.params.getD .null)).foldlM Snapshot.addFile {}
  match message.method, server.session.workspace with
  | "initialized", some workspace =>
    let snapshot ← [Configuration.projectFile, Configuration.settingsFile].foldlM
      (fun snapshot file => snapshot.addFile (workspace.join file)) snapshot
    let (roots, settings) := Configuration.load snapshot.source workspace
    let indexer := Indexer.new settings.extension
    roots.foldlM (Snapshot.addTree indexer.isSource) snapshot
  | _, _ => return snapshot

/-- Read the length of the next message from its header. None at the end of the input. -/
partial def readLength (input : IO.FS.Stream) (found : Option Nat) : IO (Option Nat) := do
  let line ← input.getLine
  if line.isEmpty then return none
  if line == "\r\n" || line == "\n" then return some (found.getD 0)
  readLength input (contentLength? line <|> found)

/-- Read so many octets. -/
partial def readBody (input : IO.FS.Stream) (count : Nat) (body : ByteArray) : IO ByteArray := do
  if count ≤ body.size then return body
  let more ← input.read (USize.ofNat (count - body.size))
  if more.isEmpty then return body else readBody input count (body ++ more)

/-- Write a message. -/
def send (output : IO.FS.Stream) (value : Json) : IO Unit := do
  output.write ⟨(frame value).toArray⟩
  output.flush

/-- Serve an editor until it leaves. Messages that wait for an answer are numbered. -/
partial def serve (input output : IO.FS.Stream) (server : Server) (number : Nat) : IO Unit := do
  let some length ← readLength input none | return
  let body ← readBody input length .empty
  let text := Text.Utf8.decodeLossy body.data.toList
  match (Json.ofText? text).bind Incoming.ofJson? with
  | none => serve input output server number
  | some message =>
    let started ← IO.monoMsNow
    let snapshot ← lookAround server message
    let elapsed := (← IO.monoMsNow) - started
    match server.receive snapshot.source (toString elapsed) message with
    | (none, _) => return
    | (some response, server) =>
      if let some reply := response.reply.toJson? then send output reply
      let mut next := number
      for sent in response.messages do
        send output (sent.toJson next)
        next := next + 1
      serve input output server next

/-- Index directories once. -/
def indexOnce (line : CommandLine) : IO CommandLine.Outcome := do
  let started ← IO.monoMsNow
  let indexer := Indexer.new (line.extension.getD defaultExtension)
  let snapshot ← line.index.foldlM (Snapshot.addTree indexer.isSource) {}
  let elapsed := (← IO.monoMsNow) - started
  return line.indexOnce snapshot.source (toString elapsed)

/-- Carry out a command line. -/
def carryOut (arguments : List String) : IO CommandLine.Outcome := do
  match CommandLine.ofArguments arguments with
  | .error stop => return stop.outcome
  | .ok line =>
    if line.index.isEmpty then
      serve (← IO.getStdin) (← IO.getStdout) {} 0
      return ⟨0, ""⟩
    else indexOnce line

end Papyrus.Main

/-- The program. -/
def main (arguments : List String) : IO UInt32 := do
  let outcome ← Papyrus.Main.carryOut arguments
  IO.print outcome.output
  return UInt32.ofNat outcome.exit
