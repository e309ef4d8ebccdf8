import Papyrus.FileSource
import Papyrus.Table

/-!
# The files of this machine

The library asks questions about files of a source that does not change under it. Such a
source is taken from the machine's files by a snapshot of what the questions are going to
be about: some paths, and the trees below some directories.
-/
namespace Papyrus.FileSystem

/-- The error that the system reports. -/
def errorOf : IO.Error → FileError
  | .noFileOrDirectory .. | .noSuchThing .. => .notFound
  | .inappropriateType _ code text =>
    if code == 20 then .notDirectory else if code == 21 then .isDirectory else .other text
  | error => .other (toString error)

/-- What comes of an action, with a failure as a value. -/
def outcome {α : Type} (action : IO α) : IO (Except FileError α) := do
  try return .ok (← action) catch error => return .error (errorOf error)

/-- When a file was changed. -/
def modified (path : Path) : IO Timestamp := do
  let time := (← (← IO.FS.realPath path.text).metadata).modified
  return .ofParts time.sec time.nsec.toNat

/-- What a file holds. -/
def read (path : Path) : IO (List UInt8) := do
  return (← IO.FS.readBinFile path.text).data.toList

/-- What stands below a directory. The directories on the way are known by their real
paths, so that a link back to one of them is noticed. -/
partial def visitsBelow (entered : List String) (place : String) (path : Path) :
    IO (List Visit) := do
  let entries ← (← IO.FS.realPath place).readDir
  let names := (entries.toList.map (·.fileName)).mergeSort
  let found ← names.mapM fun name => do
    let below := path.join ⟨name⟩
    try
      let target ← IO.FS.realPath below.text
      let isLink := toString target != ((⟨place⟩ : Path).join ⟨name⟩).text
      match (← target.metadata).type with
      | .file => return [Visit.file below]
      | .dir =>
        if isLink && entered.contains (toString target) then return [.failure below]
        let inner ← visitsBelow (toString target :: entered) (toString target) below
        return .directory below :: inner
      | _ => return []
    catch _ => return [.failure below]
  return found.flatten

/-- A walk from a directory. -/
def walk (path : Path) : IO (List Visit) := do
  try
    let place ← IO.FS.realPath path.text
    match (← place.metadata).type with
    | .dir => return .directory path :: (← visitsBelow [toString place] (toString place) path)
    | _ => return []
  catch _ => return []

/-- What was found out about files. -/
structure Snapshot where
  files : Table Path (Except FileError Timestamp × Except FileError (List UInt8)) := .empty
  walks : Table Path (List Visit) := .empty

namespace Snapshot

/-- The source that answers from what was found out. -/
def source (snapshot : Snapshot) : FileSource where
  modified path := (snapshot.files.find? path).elim (.error .notFound) (·.1)
  read path := (snapshot.files.find? path).elim (.error .notFound) (·.2)
  walk path := (snapshot.walks.find? path).getD []

/-- Find out about one file. -/
def addFile (snapshot : Snapshot) (path : Path) : IO Snapshot := do
  let time ← outcome (FileSystem.modified path)
  let content ← outcome (FileSystem.read path)
  return { snapshot with files := snapshot.files.insert path (time, content) }

/-- Find out about a directory, and about the files below it that are wanted. -/
def addTree (wanted : Path → Bool) (snapshot : Snapshot) (root : Path) : IO Snapshot := do
  let visits ← FileSystem.walk root
  let files := visits.filterMap fun visit =>
    match visit with
    | .file path => if wanted path then some path else none
    | _ => none
  files.foldlM addFile { snapshot with walks := snapshot.walks.insert root visits }

end Snapshot
end Papyrus.FileSystem
