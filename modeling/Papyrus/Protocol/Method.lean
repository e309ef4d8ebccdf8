import Papyrus.Protocol.Shape

/-!
# The methods of the editor protocol

A method is a request, which is answered, or a notification, which is not. The server
knows all methods of the protocol, with the shapes of their parameters, and carries out
a few of them.
-/
namespace Papyrus.Protocol

/-- The methods that are carried out, apart from those of the life cycle. -/
inductive Action where
  | initialized
  | didOpen
  | didChange
  | didClose
  | didChangeFiles
  | completion
  deriving DecidableEq, Repr

/-- What is known about a method. -/
inductive Method where
  | connect
  | shutdown
  | exit
  | notification (shape : Shape) (action : Option Action)
  | request (shape : Shape) (action : Option Action)

namespace Method

open Shape

/-- The notifications. -/
def notifications : List (String × Shape × Option Action) := [
  ("initialized", .object, some .initialized),
  ("textDocument/didOpen",
    .required "textDocument" (record [.required "uri" .url, .required "languageId" .text,
      .required "version" signed, .required "text" .text]),
    some .didOpen),
  ("textDocument/didChange",
    record [
      .required "textDocument" (record [.required "uri" .url, .required "version" signed]),
      .required "contentChanges" (.list (record [.optional "range" range,
        .optional "rangeLength" unsigned, .required "text" .text]))],
    some .didChange),
  ("textDocument/didClose", document, some .didClose),
  ("workspace/didChangeWatchedFiles",
    .required "changes" (.list (record [.required "uri" .url, .required "type" signed])),
    some .didChangeFiles),
  ("textDocument/willSave", .anything, none),
  ("textDocument/didSave", .anything, none),
  ("workspace/didChangeConfiguration", .anything, none),
  ("workspace/didChangeWorkspaceFolders", .anything, none),
  ("workspace/didCreateFiles", .anything, none),
  ("workspace/didRenameFiles", .anything, none),
  ("workspace/didDeleteFiles", .anything, none),
  ("$/cancelRequest", .anything, none)]

/-- The requests. -/
def requests : List (String × Shape × Option Action) := [
  ("textDocument/completion",
    atPosition [.optional "context"
      (record [.required "triggerKind" signed, .optional "triggerCharacter" .text])],
    some .completion),
  ("completionItem/resolve", .required "label" .text, none),
  ("textDocument/willSaveWaitUntil", record [document, .required "reason" signed], none),
  ("textDocument/declaration", atPosition [], none),
  ("textDocument/definition", atPosition [], none),
  ("textDocument/typeDefinition", atPosition [], none),
  ("textDocument/implementation", atPosition [], none),
  ("textDocument/references",
    atPosition [.required "context" (.required "includeDeclaration" .flag)], none),
  ("textDocument/prepareCallHierarchy", atPosition [], none),
  ("callHierarchy/incomingCalls", record [.required "item" hierarchyItem, progress], none),
  ("callHierarchy/outgoingCalls", record [.required "item" hierarchyItem, progress], none),
  ("textDocument/prepareTypeHierarchy", atPosition [], none),
  ("typeHierarchy/supertypes", record [.required "item" hierarchyItem, progress], none),
  ("typeHierarchy/subtypes", record [.required "item" hierarchyItem, progress], none),
  ("textDocument/documentHighlight", atPosition [], none),
  ("textDocument/documentLink", inDocument [], none),
  ("documentLink/resolve", .required "range" range, none),
  ("textDocument/hover", atPosition [], none),
  ("textDocument/codeLens", inDocument [], none),
  ("codeLens/resolve", .required "range" range, none),
  ("textDocument/foldingRange", inDocument [], none),
  ("textDocument/selectionRange", inDocument [.required "positions" (.list position)], none),
  ("textDocument/documentSymbol", inDocument [], none),
  ("textDocument/semanticTokens/full", inDocument [], none),
  ("textDocument/semanticTokens/full/delta",
    inDocument [.required "previousResultId" .text], none),
  ("textDocument/semanticTokens/range", inDocument [.required "range" range], none),
  ("textDocument/inlineValue",
    inDocument [.required "range" range,
      .required "context" (record [.required "frameId" signed, .required "stoppedLocation" range])],
    none),
  ("textDocument/inlayHint", inDocument [.required "range" range], none),
  ("inlayHint/resolve",
    record [.required "position" position, .required "label" .anything], none),
  ("textDocument/moniker", atPosition [], none),
  ("textDocument/diagnostic",
    inDocument [.optional "identifier" .text, .optional "previousResultId" .text], none),
  ("workspace/diagnostic",
    record [.required "previousResultIds"
      (.list (record [.required "uri" .url, .required "value" .text])), progress], none),
  ("textDocument/signatureHelp", atPosition [.optional "context" .object], none),
  ("textDocument/codeAction",
    inDocument [.required "range" range,
      .required "context" (record [.required "diagnostics" (.list diagnostic),
        .optional "only" (.list .text), .optional "triggerKind" signed])],
    none),
  ("codeAction/resolve", .required "title" .text, none),
  ("textDocument/documentColor", inDocument [], none),
  ("textDocument/colorPresentation",
    inDocument [.required "range" range, .required "color" .object], none),
  ("textDocument/formatting", inDocument [formatting], none),
  ("textDocument/rangeFormatting", inDocument [.required "range" range, formatting], none),
  ("textDocument/onTypeFormatting", atPosition [.required "ch" .text, formatting], none),
  ("textDocument/rename", atPosition [.required "newName" .text], none),
  ("textDocument/prepareRename", atPosition [], none),
  ("textDocument/linkedEditingRange", atPosition [], none),
  ("workspace/symbol", record [.required "query" .text, progress], none),
  ("workspaceSymbol/resolve",
    record [.required "name" .text, .required "kind" signed, .required "location" .object], none),
  ("workspace/willCreateFiles", files ["uri"], none),
  ("workspace/willRenameFiles", files ["oldUri", "newUri"], none),
  ("workspace/willDeleteFiles", files ["uri"], none),
  ("workspace/executeCommand",
    record [.required "command" .text, .optional "arguments" (.list .anything), progress], none)]

/-- The method with a name, if the protocol has one. -/
def ofName? (name : String) : Option Method :=
  match name with
  | "initialize" => some .connect
  | "shutdown" => some .shutdown
  | "exit" => some .exit
  | _ =>
    match notifications.lookup name with
    | some (shape, action) => some (.notification shape action)
    | none => (requests.lookup name).map fun (shape, action) => .request shape action

end Method
end Papyrus.Protocol
