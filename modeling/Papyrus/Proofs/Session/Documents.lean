import Papyrus.Proofs.Indexer.Alignment
import Papyrus.Session

/-!
# Open documents and the index keep apart

A session is told of two kinds of things: what the editor does to documents, and that files
changed or are to be indexed. It has a part for each. The documents are changed by the editor
alone, and the indexer by news of files alone; neither is looked at to change the other. Both
meet only where a completion is answered, from the text of one document and from the index.

So the text of a document is told by what was said about this document, back to where it was
closed last, and an answer does not depend on other documents, whether they are open or not and
whatever stands in them.

Documents are told apart by the spelling of their addresses.
-/
namespace Papyrus

namespace Indexer

/-- The indexer to use for an extension: the one at hand if it has that extension, and otherwise
an empty one. -/
def forExtension (indexer : Indexer) (extension : String) : Indexer :=
  if Text.sameName indexer.extension (bareExtension extension) then indexer else .new extension

end Indexer

namespace Session

/-- Something that a session is told, with the files as they are found at that time. -/
inductive Event where
  | opened (url : Url) (text : String)
  | changed (url : Url) (texts : List String)
  | closed (url : Url)
  | filesChanged (source : FileSource) (changes : List (Url × FileChange))
  | indexWorkspace (source : FileSource)

namespace Event

/-- The session after it was told something. -/
def apply (session : Session) : Event → Session
  | .opened url text => session.openDocument url text
  | .changed url texts => session.changeDocument url texts
  | .closed url => session.closeDocument url
  | .filesChanged source changes => session.filesChanged source changes
  | .indexWorkspace source => (session.indexWorkspace source).2

/-- The document that the editor did something to. -/
def document? : Event → Option Url
  | .opened url _ | .changed url _ | .closed url => some url
  | .filesChanged .. | .indexWorkspace .. => none

/-- Whether an event is about a document, or about files. -/
def concerns (url : Url) (event : Event) : Bool :=
  event.document?.all (·.text == url.text)

/-- The text that a document is given. Of several texts the last one counts, and without any the
document keeps its text. -/
def text? (url : Url) : Event → Option String
  | .opened other text => if other.text = url.text then some text else none
  | .changed other texts => if other.text = url.text then texts.getLast? else none
  | _ => none

/-- Whether a document is closed. -/
def closes (url : Url) : Event → Bool
  | .closed other => other.text == url.text
  | _ => false

end Event

/-- The session after some events, the first of them first. -/
def run (session : Session) (events : List Event) : Session :=
  events.foldl Event.apply session

/-- The text that a document was given last, since it was last closed. -/
def shown? (events : List Event) (url : Url) : Option String :=
  (events.reverse.takeWhile fun event => !event.closes url).findSome? (·.text? url)

/-- What the file of a document holds. -/
def onDisk? (means : Means) (source : FileSource) (url : Url) : Option (List Char) := do
  let path ← means.filePath? url
  let octets ← (source.read path).toOption
  return Text.Utf8.decodeLossy octets

/-- A completion may give an answer if it does so in some order of the files. -/
def MayAnswer (session : Session) (source : FileSource) (url : Url) (line column : Nat)
    (answer : Option (List Completion.Item)) : Prop :=
  ∃ files : List (Path × List Symbol), files.Perm session.indexer.index.files.entries ∧
    answer = (session.contextAt? source url line column).map fun context =>
      Completion.Item.ofSymbols context
        (Completion.queryOver session.indexer.index (files.map (·.2)) context)

section Parts

/-- What an indexer is asked to do when a file changed. -/
def callFor? (means : Means) (source : FileSource) (change : Url × FileChange) :
    Option Indexer.Call :=
  match means.filePath? change.1, change.2 with
  | some path, .created | some path, .changed => some (.reindex source path)
  | some path, .deleted => some (.forget path)
  | _, _ => none

/-- The documents after an event. -/
def Event.editing (documents : Table String String) : Event → Table String String
  | .opened url text => documents.insert url.text text
  | .changed url texts => texts.getLast?.elim documents (documents.insert url.text)
  | .closed url => documents.erase url.text
  | .filesChanged .. | .indexWorkspace .. => documents

/-- The indexer after an event, in a workspace. -/
def Event.indexing (means : Means) (workspace : Option Path) (indexer : Indexer) :
    Event → Indexer
  | .opened .. | .changed .. | .closed .. => indexer
  | .filesChanged source changes => indexer.perform (changes.filterMap (callFor? means source))
  | .indexWorkspace source =>
    workspace.elim indexer fun directory =>
      let (roots, settings) := means.load source directory
      (indexer.forExtension settings.bareExtension).perform
        (if roots.isEmpty then [] else [.indexRoots source roots])

/-- Changes of files are requests to the indexer, one after the other. -/
theorem filesChanged_eq (session : Session) (source : FileSource)
    (changes : List (Url × FileChange)) : session.filesChanged source changes =
      { session with
        indexer := session.indexer.perform
          (changes.filterMap (callFor? session.means source)) } := by
  induction changes generalizing session with
  | nil => rfl
  | cons change rest inductionHypothesis =>
    change (fileChanged source session change).filesChanged source rest = _
    rw [inductionHypothesis, fileChanged, List.filterMap_cons, callFor?]
    cases session.means.filePath? change.1 with
    | none => rfl
    | some path => cases change.2 <;> rfl

/-- Using an extension changes nothing but the indexer. -/
theorem useExtension_eq (session : Session) (extension : String) :
    session.useExtension extension =
      { session with indexer := session.indexer.forExtension extension } := by
  rw [useExtension, Indexer.forExtension]
  split <;> rfl

/-- Indexing some directories is a request to the indexer, unless there are none. -/
theorem scan_eq (session : Session) (source : FileSource) (roots : List Path) :
    (session.scan source roots).2 =
      { session with
        indexer := session.indexer.perform
          (if roots.isEmpty then [] else [.indexRoots source roots]) } := by
  rw [scan]
  split <;> rfl

/-- Indexing a workspace is using the extension of its settings and indexing its directories. -/
theorem indexWorkspace_eq (session : Session) (source : FileSource) :
    (session.indexWorkspace source).2 =
      { session with
        indexer := (Event.indexWorkspace source).indexing session.means session.workspace
          session.indexer } := by
  obtain ⟨documents, _ | directory, indexer, means⟩ := session
  · rfl
  · simp only [indexWorkspace, prepareScan, scan_eq, useExtension_eq]
    rfl

/-- An event changes the documents as far as it is the editor's, and the indexer as far as it is
about files. -/
theorem Event.apply_eq (session : Session) (event : Event) :
    event.apply session =
      { documents := event.editing session.documents
        workspace := session.workspace
        indexer := event.indexing session.means session.workspace session.indexer
        means := session.means } := by
  cases event with
  | opened url text => rfl
  | changed url texts =>
    rw [apply, changeDocument, editing]
    cases texts.getLast? <;> rfl
  | closed url => rfl
  | filesChanged source changes => exact filesChanged_eq session source changes
  | indexWorkspace source => exact indexWorkspace_eq session source

/-- The two parts of a session are changed by events side by side. -/
theorem run_eq (session : Session) (events : List Event) :
    session.run events =
      { documents := events.foldl Event.editing session.documents
        workspace := session.workspace
        indexer := events.foldl (Event.indexing session.means session.workspace) session.indexer
        means := session.means } := by
  induction events generalizing session with
  | nil => rfl
  | cons event rest inductionHypothesis =>
    change (event.apply session).run rest = _
    rw [inductionHypothesis, Event.apply_eq]
    rfl

end Parts

section Texts

/-- An event takes away the text of a document that it closes, and replaces the text of a
document that it gives one. -/
theorem find?_editing (documents : Table String String) (event : Event) (url : Url) :
    (event.editing documents).find? url.text =
      if event.closes url then none else (event.text? url).or (documents.find? url.text) := by
  cases event with
  | opened other text =>
    simp only [Event.editing, Event.closes, Event.text?, Table.find?_insert, beq_iff_eq]
    split <;> simp
  | changed other texts =>
    simp only [Event.editing, Event.closes, Event.text?]
    cases texts.getLast? with
    | none => simp
    | some text =>
      simp only [Option.elim_some, Table.find?_insert, beq_iff_eq]
      split <;> simp
  | closed other => exact Table.find?_erase documents other.text url.text
  | filesChanged source changes => rfl
  | indexWorkspace source => rfl

/-- The last event decides which text is shown, unless it says nothing of the document. -/
theorem shown?_concat (events : List Event) (event : Event) (url : Url) :
    shown? (events ++ [event]) url =
      if event.closes url then none else (event.text? url).or (shown? events url) := by
  rw [shown?, List.reverse_concat, List.takeWhile_cons]
  by_cases closed : event.closes url
  · simp [closed]
  · simp only [closed, Bool.not_false, if_true, List.findSome?_cons, Bool.false_eq_true, if_false]
    cases event.text? url <;> rfl

/-- The documents hold the text that is shown. -/
theorem find?_foldl_editing (events : List Event) (url : Url) :
    (events.foldl Event.editing .empty).find? url.text = shown? events url := by
  induction events using List.reverseRecOn with
  | nil => rfl
  | append_singleton events event inductionHypothesis =>
    rw [List.foldl_append, List.foldl_cons, List.foldl_nil, find?_editing, inductionHypothesis,
      shown?_concat]

/-- The text of a document is the one that is shown, or else the one on disk. -/
theorem documentText?_run (means : Means) (workspace : Option Path) (events : List Event)
    (source : FileSource) (url : Url) :
    (({ workspace, means } : Session).run events).documentText? source url =
      ((shown? events url).map String.toList).or (onDisk? means source url) := by
  rw [documentText?, run_eq, find?_foldl_editing]
  cases shown? events url <;> rfl

-- A document that is not open is read from its file whatever its scheme is.
example :
    let source : FileSource :=
      { modified := fun _ => .error .notFound
        read := fun path => if path == ⟨"/r/Sheep.psc"⟩ then .ok [0x46] else .error .notFound
        walk := fun _ => [] }
    let text? (spelling : String) : Option (List Char) :=
      (Url.ofText? spelling.toList).bind (({} : Session).documentText? source)
    text? "file:///r/Sheep.psc" = some ['F'] ∧ text? "git:/r/Sheep.psc" = some ['F'] ∧
      text? "http://localhost/r/Sheep.psc" = some ['F'] ∧ text? "http://r/Sheep.psc" = none := by
  decide +kernel

end Texts

section Others

/-- What is done to other documents says nothing of a document. -/
theorem unmentioned_of_other {event : Event} {url : Url} (other : event.concerns url = false) :
    event.closes url = false ∧ event.text? url = none := by
  cases event <;> simp_all [Event.concerns, Event.document?, Event.closes, Event.text?]

/-- The events about other documents have no part in which text is shown. -/
theorem shown?_filter (events : List Event) (url : Url) :
    shown? (events.filter (·.concerns url)) url = shown? events url := by
  induction events using List.reverseRecOn with
  | nil => rfl
  | append_singleton events event inductionHypothesis =>
    rw [List.filter_append, List.filter_singleton, shown?_concat, ← inductionHypothesis]
    cases isAbout : event.concerns url with
    | true => exact shown?_concat _ event url
    | false =>
      obtain ⟨notClosed, noText⟩ := unmentioned_of_other isAbout
      simp [notClosed, noText]

/-- What is done to a document leaves the indexer as it is. -/
theorem indexing_of_document {event : Event} (isDocument : event.document?.isSome)
    (means : Means) (workspace : Option Path) (indexer : Indexer) :
    event.indexing means workspace indexer = indexer := by
  cases event with
  | opened url text => rfl
  | changed url texts => rfl
  | closed url => rfl
  | filesChanged source changes => exact Bool.noConfusion isDocument
  | indexWorkspace source => exact Bool.noConfusion isDocument

/-- The events about documents have no part in what the indexer becomes, so that any of them may
be left out. -/
theorem indexer_run_filter (session : Session) {kept : Event → Bool}
    (leftOut : ∀ event, kept event = false → event.document?.isSome) (events : List Event) :
    (session.run (events.filter kept)).indexer = (session.run events).indexer := by
  rw [run_eq, run_eq]
  dsimp only
  rw [List.foldl_filter]
  congr 1
  funext indexer event
  cases isKept : kept event with
  | true => rfl
  | false =>
    exact (indexing_of_document (leftOut event isKept) session.means session.workspace indexer).symm

/-- Only events about documents are about other documents. -/
theorem isSome_document?_of_other {url : Url} (event : Event)
    (other : event.concerns url = false) : event.document?.isSome := by
  rw [Event.concerns] at other
  cases isDocument : event.document? with
  | none => exact Bool.noConfusion (isDocument ▸ other)
  | some document => rfl

end Others

/-- Open documents and the index keep apart in every run.

A completion works on the text that its document was given last since it was last closed, or else
on the file. What the editor does to documents leaves the indexer as it is, so that the indexer is
the one of a run without any of it. Two runs that differ only in what is done to other documents
give the same answers, in the order that files happen to be listed in and in every other.

All this holds by whatever means addresses lead to files and workspaces are configured. -/
theorem documents_and_index_keep_apart (means : Means) (workspace : Option Path)
    (events : List Event) :
    let start : Session := { workspace, means }
    let session := start.run events
    (∀ source url,
      let text := ((shown? events url).map String.toList).or (onDisk? means source url)
      session.documentText? source url = text ∧
      ∀ line column, session.complete? source url line column = text.map fun text =>
        let context := Completion.Context.detect (Text.linePrefix text line column) (some text)
        Completion.Item.ofSymbols context (Completion.query session.indexer.index context)) ∧
    (∀ event : Event, event.document?.isSome → (event.apply session).indexer = session.indexer) ∧
    (start.run (events.filter (·.document?.isNone))).indexer = session.indexer ∧
    ∀ url others, others.filter (·.concerns url) = events.filter (·.concerns url) →
      ∀ source line column,
        let other := start.run others
        other.complete? source url line column = session.complete? source url line column ∧
        session.MayAnswer source url line column (session.complete? source url line column) ∧
        ∀ answer, other.MayAnswer source url line column answer ↔
          session.MayAnswer source url line column answer := by
  intro start session
  refine ⟨?_, ?_, ?_, ?_⟩
  · intro source url text
    have isText : session.documentText? source url = text :=
      documentText?_run means workspace events source url
    refine ⟨isText, fun line column => ?_⟩
    rw [complete?, contextAt?, isText, Option.map_map]
    rfl
  · intro event isDocument
    rw [Event.apply_eq]
    exact indexing_of_document isDocument session.means session.workspace session.indexer
  · refine indexer_run_filter start (fun event dropped => ?_) events
    simpa [Option.isSome_iff_ne_none] using dropped
  · intro url others same source line column other
    have sameIndexer : other.indexer = session.indexer := by
      rw [← indexer_run_filter start isSome_document?_of_other others, same,
        indexer_run_filter start isSome_document?_of_other events]
    have sameContext : other.contextAt? source url line column =
        session.contextAt? source url line column := by
      have sameText : shown? others url = shown? events url := by
        rw [← shown?_filter, same, shown?_filter]
      rw [contextAt?, contextAt?, documentText?_run, documentText?_run, sameText]
    refine ⟨?_, ⟨_, List.Perm.refl _, rfl⟩, fun answer => ?_⟩
    · rw [complete?, complete?, sameContext, sameIndexer]
    · rw [MayAnswer, MayAnswer, sameContext, sameIndexer]

/-- The address of a file in a workspace. -/
def addressOf (name : String) : Url :=
  ⟨"file".toList, some ⟨[], [], []⟩, .segments ["r".toList, name.toList], none, none⟩

/-- Files of which only one can be read. -/
def meadow : FileSource where
  modified _ := .ok ⟨1⟩
  read path := if path == ⟨"/r/Sheep.psc"⟩ then
    .ok "ScriptName Sheep\nFunction Graze(".toUTF8.toList else .error .notFound
  walk _ := []

/-- A lamb is edited and its parent is indexed, while other documents are opened, changed and
closed, among them the parent itself. -/
def busy : List Event :=
  [.opened (addressOf "Sheep.psc") "ScriptName Wolf",
    .opened (addressOf "Lamb.psc") "ScriptName Lamb",
    .changed (addressOf "Grass.psc") ["ScriptName Grass"],
    .filesChanged meadow [(addressOf "Sheep.psc", .created)],
    .closed (addressOf "Sheep.psc"),
    .changed (addressOf "Lamb.psc") ["ScriptName", "ScriptName Lamb extends Sheep\n"],
    .changed (addressOf "Lamb.psc") []]

/-- The same without the other documents. -/
def quiet : List Event :=
  [.opened (addressOf "Lamb.psc") "ScriptName Lamb",
    .filesChanged meadow [(addressOf "Sheep.psc", .created)],
    .changed (addressOf "Lamb.psc") ["ScriptName", "ScriptName Lamb extends Sheep\n"],
    .changed (addressOf "Lamb.psc") []]

/-- What is done to other documents has no part in what is offered to the lamb. -/
theorem quiet_and_busy_lambs_are_offered_the_same :
    let lamb := addressOf "Lamb.psc"
    let answer := (({} : Session).run quiet).complete? meadow lamb 1 0
    busy.filter (·.concerns lamb) = quiet.filter (·.concerns lamb) ∧
      answer = some [⟨"Graze", .function, "Function in Sheep (inherited)", none⟩,
        ⟨"Sheep", .type, "Script", none⟩] ∧
      (({} : Session).run busy).complete? meadow lamb 1 0 = answer := by
  intro lamb answer
  have same : busy.filter (·.concerns lamb) = quiet.filter (·.concerns lamb) := rfl
  obtain ⟨_, _, _, alike⟩ := documents_and_index_keep_apart {} none quiet
  exact ⟨same, by decide +kernel, (alike lamb busy same meadow 1 0).1⟩

end Session
end Papyrus
