import Papyrus.FileSource
import Papyrus.Table

/-!
# Disks

A disk is a tree of files, directories and symbolic links. Every place in it has one
trail: the names that lead to it, the innermost first, so the directory of a place is
the tail of its trail. The root directory has the empty trail and is always there.

A path is followed piece by piece. What stands before another piece has to be a
directory, links are replaced by their targets, and a path may lead through a limited
number of links, so that following a circle of links ends with an error.
-/
namespace Papyrus

/-- The names that lead to a place, the innermost first. -/
abbrev Trail := List String

/-- What stands at a place. -/
inductive Disk.Node where
  | file (content : List UInt8) (modified : Timestamp)
  | directory
  | link (target : String)
  deriving DecidableEq, Repr

/-- The nodes by their trails, and the directory where relative paths start. -/
structure Disk where
  nodes : Table Trail Disk.Node
  workingDirectory : Trail

/-- How the last piece of a path is treated. -/
structure Lookup where
  /-- A link in the last place is followed. -/
  throughLink : Bool
  /-- The last place need not exist yet. -/
  mayBeMissing : Bool

namespace Lookup

/-- What the path leads to in the end. -/
def target : Lookup := ⟨true, false⟩

/-- The place that the path names, also if a link stands there. -/
def place : Lookup := ⟨false, false⟩

/-- Where writing to the path would go. -/
def newTarget : Lookup := ⟨true, true⟩

/-- The place that the path names, which may still be free. -/
def newPlace : Lookup := ⟨false, true⟩

end Lookup

namespace Disk

/-- The disk that holds its root directory alone. -/
def empty : Disk := ⟨.empty, []⟩

/-- How many links a path may lead through. -/
def linkLimit : Nat := 40

/-- How many octets a name may have. -/
def nameLimit : Nat := 255

/-- What stands at the end of a trail. -/
def node? (disk : Disk) : Trail → Option Node
  | [] => some .directory
  | trail => disk.nodes.find? trail

/-- The pieces of a path between its slashes. -/
def pieces (path : String) : List String :=
  (path.toList.splitOn '/').map String.ofList

/-- Whether a path starts at the root directory. -/
def isAbsolute (path : String) : Bool :=
  path.toList.head? == some '/'

/-- Follow the pieces of a path from a trail, through at most so many links. -/
def follow (disk : Disk) (lookup : Lookup) (links : Nat) (trail : Trail)
    (path : List String) : Except FileError Trail :=
  match path with
  | [] => .ok trail
  | piece :: rest =>
    match disk.node? trail with
    | none => .error .notFound
    | some (.file ..) | some (.link _) => .error .notDirectory
    | some .directory =>
      if piece = "" ∨ piece = "." then follow disk lookup links trail rest
      else if piece = ".." then follow disk lookup links trail.tail rest
      else if nameLimit < piece.utf8ByteSize then .error .nameTooLong
      else
        match disk.node? (piece :: trail) with
        | none =>
          if rest.isEmpty && lookup.mayBeMissing then .ok (piece :: trail) else .error .notFound
        | some (.link target) =>
          if rest.isEmpty && !lookup.throughLink then .ok (piece :: trail)
          else
            match links with
            | 0 => .error .tooManyLinks
            | fewer + 1 =>
              follow disk lookup fewer (if isAbsolute target then [] else trail)
                (pieces target ++ rest)
        | some _ => follow disk lookup links (piece :: trail) rest
  termination_by (links, path.length)

/-- The trail that a path leads to. -/
def locate (disk : Disk) (lookup : Lookup) (path : Path) : Except FileError Trail :=
  if path.text.isEmpty then .error .notFound
  else if path.text.contains '\x00' then .error .nulInName
  else
    let start := if isAbsolute path.text then [] else disk.workingDirectory
    disk.follow lookup linkLimit start (pieces path.text)

/-- What a path leads to, links followed. -/
def stat (disk : Disk) (path : Path) : Except FileError Node := do
  let trail ← disk.locate .target path
  match disk.node? trail with
  | some node => return node
  | none => throw .notFound

/-- Whether a path leads to a directory. -/
def isDirectory (disk : Disk) (path : Path) : Bool :=
  match disk.stat path with
  | .ok .directory => true
  | _ => false

/-- The content of the file that a path leads to. -/
def read (disk : Disk) (path : Path) : Except FileError (List UInt8) := do
  match ← disk.stat path with
  | .file content _ => return content
  | _ => throw .isDirectory

/-- When the file that a path leads to was changed last. Only files carry a time here, so this
fails on a directory. A file system tells a time there too, and it is reading the directory that
fails. -/
def modified (disk : Disk) (path : Path) : Except FileError Timestamp := do
  match ← disk.stat path with
  | .file _ modified => return modified
  | _ => throw .isDirectory

end Disk
end Papyrus
