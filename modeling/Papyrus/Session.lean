import Papyrus.Completion.Item
import Papyrus.Completion.Stable
import Papyrus.Configuration
import Papyrus.Url

/-!
# An editing session

A session serves one editor: it knows the documents that are open, the workspace, and
the indexer of the workspace's scripts. Open documents never reach the index, which is
built from files alone, and indexing never changes a document. Completion works on the
text of the open document, or else on the file.

The settings may name another extension. Then the indexer starts afresh, so that the
index never holds files of two kinds; letter case and dots in front do not make another
extension.

How an address leads to a file and how a workspace is configured is no matter of the
session. It is given the means to find out.
-/
namespace Papyrus

/-- The means of a session that are not its own. -/
structure Session.Means where
  /-- The path of the file that an address leads to. -/
  filePath? : Url → Option Path := Url.filePath?
  /-- The directories to index in a workspace and the settings used. -/
  load : FileSource → Path → List Path × Settings := Configuration.load

/-- The state of a session. -/
structure Session where
  /-- The text of open documents, by the spelling of their addresses. -/
  documents : Table String String := .empty
  workspace : Option Path := none
  indexer : Indexer := .new defaultExtension
  means : Session.Means := {}

/-- What happened to a file. -/
inductive FileChange where
  | created
  | changed
  | deleted
  | unknown
  deriving DecidableEq, Repr

/-- The meaning of a change's number in the editor protocol. -/
def FileChange.ofCode : Int → FileChange
  | 1 => .created
  | 2 => .changed
  | 3 => .deleted
  | _ => .unknown

namespace Session

/-- Take the workspace from the address of its root, or else from the first of its
folders. An address that leads to no file is passed over, and without any other the workspace
stays as it was. -/
def connect (session : Session) (root : Option Url) (folders : List Url) : Session :=
  match root.bind session.means.filePath? <|> folders.head?.bind session.means.filePath? with
  | some path => { session with workspace := some path }
  | none => session

/-- A document was opened with a text. -/
def openDocument (session : Session) (url : Url) (text : String) : Session :=
  { session with documents := session.documents.insert url.text text }

/-- A document was given new texts one after the other, each of them whole. -/
def changeDocument (session : Session) (url : Url) (texts : List String) : Session :=
  match texts.getLast? with
  | some text => session.openDocument url text
  | none => session

/-- A document was closed. -/
def closeDocument (session : Session) (url : Url) : Session :=
  { session with documents := session.documents.erase url.text }

/-- The text of a document: as it is open, or else as the file has it. -/
def documentText? (session : Session) (source : FileSource) (url : Url) : Option (List Char) :=
  match session.documents.find? url.text with
  | some text => some text.toList
  | none => do
    let path ← session.means.filePath? url
    let octets ← (source.read path).toOption
    return Text.Utf8.decodeLossy octets

/-- Use an extension for source files. The indexer is kept if it has that extension, and
otherwise replaced by an empty one. -/
def useExtension (session : Session) (extension : String) : Session :=
  if Text.sameName session.indexer.extension (bareExtension extension) then session
  else { session with indexer := .new extension }

/-- Load the configuration and give the directories to index. There are none to speak of
without a workspace. -/
def prepareScan (session : Session) (source : FileSource) : Option (List Path) × Session :=
  match session.workspace with
  | none => (none, session)
  | some workspace =>
    let (roots, settings) := session.means.load source workspace
    (some roots, session.useExtension settings.bareExtension)

/-- Index some directories. With none there is nothing to do, so that a scan that is going
on does not matter. -/
def scan (session : Session) (source : FileSource) (roots : List Path) :
    Option ScanStats × Session :=
  if roots.isEmpty then (some {}, session)
  else
    let (stats, indexer) := session.indexer.indexRoots source roots
    (stats, { session with indexer })

/-- Index the workspace as it is configured. -/
def indexWorkspace (session : Session) (source : FileSource) : Option ScanStats × Session :=
  match session.prepareScan source with
  | (none, session) => (none, session)
  | (some roots, session) => session.scan source roots

/-- Bring one file up to date, and say whether it was read. -/
def reindex (session : Session) (source : FileSource) (path : Path) : Bool × Session :=
  let (parsed, indexer) := session.indexer.reindex source path
  (parsed, { session with indexer })

/-- A file was created, changed or deleted. A deleted directory takes everything below it
along. -/
def fileChanged (source : FileSource) (session : Session) (change : Url × FileChange) : Session :=
  match session.means.filePath? change.1, change.2 with
  | some path, .created | some path, .changed => (session.reindex source path).2
  | some path, .deleted => { session with indexer := (session.indexer.forget path).2 }
  | _, _ => session

/-- Some files were created, changed or deleted. -/
def filesChanged (session : Session) (source : FileSource) (changes : List (Url × FileChange)) :
    Session :=
  changes.foldl (fileChanged source) session

/-- What a completion at a position of a document asks for, if the document is known. -/
def contextAt? (session : Session) (source : FileSource) (url : Url) (line column : Nat) :
    Option Completion.Context :=
  (session.documentText? source url).map fun text =>
    .detect (Text.linePrefix text line column) (some text)

/-- The completions at a position of a document. -/
def complete? (session : Session) (source : FileSource) (url : Url) (line column : Nat) :
    Option (List Completion.Item) :=
  (session.contextAt? source url line column).map fun context =>
    Completion.Item.ofSymbols context (Completion.query session.indexer.index context)

/-- The completions at a position of a document, as far as they do not depend on the order
of files. -/
def completeStable? (session : Session) (source : FileSource) (url : Url) (line column : Nat) :
    Option (Completion.Stable Completion.Item) :=
  (session.contextAt? source url line column).map fun context =>
    (Completion.stableQuery session.indexer.index context).map (Completion.Item.ofSymbol context)

end Session
end Papyrus
