import Papyrus.Path
import Papyrus.Symbol
import Papyrus.Table

/-!
# The symbol index

The index knows the symbols of every file, the script of each file that declares
one, and for every script name the files that declare it, in the order in which they
were last indexed. A name that several files declare is answered by the file indexed
last. When that file goes away or declares another name, the one indexed before it
takes over.
-/
namespace Papyrus

/-- Files, scripts by file, and declaring files by script key. -/
structure Index where
  files : Table Path (List Symbol)
  scripts : Table Path Script
  declarers : Table String (List Path)

namespace Index

/-- The index that knows nothing. -/
def empty : Index := ⟨.empty, .empty, .empty⟩

instance : Inhabited Index := ⟨empty⟩

/-- Strike a file from those that declare a key. A key that nobody declares any more
is forgotten. -/
def withdraw (declarers : Table String (List Path)) (key : String) (path : Path) :
    Table String (List Path) :=
  match declarers.find? key with
  | none => declarers
  | some paths =>
    match paths.filter (fun other => !(other == path)) with
    | [] => declarers.erase key
    | rest => declarers.insert key rest

/-- Take back the script that a file declares. -/
def release (index : Index) (path : Path) : Index :=
  match index.scripts.find? path with
  | none => index
  | some script =>
    { index with
      scripts := index.scripts.erase path
      declarers := withdraw index.declarers (Script.key script.name) path }

/-- Let a file declare a script, as the last one so far. -/
def declare (index : Index) (path : Path) (script : Script) : Index :=
  let key := Script.key script.name
  { index with
    scripts := index.scripts.insert path script
    declarers := index.declarers.insert key ((index.declarers.find? key).getD [] ++ [path]) }

/-- Replace everything known about a file. -/
def put (index : Index) (path : Path) (symbols : List Symbol) (script : Option Script) : Index :=
  let released := index.release path
  let stored := { released with files := released.files.insert path symbols }
  match script with
  | none => stored
  | some script => stored.declare path script

/-- Forget a file. -/
def erase (index : Index) (path : Path) : Index :=
  let released := index.release path
  { released with files := released.files.erase path }

/-- Forget a file, and say whether it was known. -/
def remove (index : Index) (path : Path) : Bool × Index :=
  (index.files.contains path, index.erase path)

/-- Forget some files one after the other, and say how many of them were known. -/
def removeAll (index : Index) : List Path → Nat × Index
  | [] => (0, index)
  | path :: rest =>
    let (known, smaller) := index.remove path
    let (count, last) := smaller.removeAll rest
    (known.toNat + count, last)

/-- The indexed files at or below a path. -/
def filesUnder (index : Index) (above : Path) : List Path :=
  index.files.keys.filter (·.startsWith above)

/-- Forget every file at or below a path, and say how many there were. -/
def removeUnder (index : Index) (above : Path) : Nat × Index :=
  index.removeAll (index.filesUnder above)

/-- The symbols of a file. -/
def symbols? (index : Index) (path : Path) : Option (List Symbol) :=
  index.files.find? path

/-- The script that answers to a key. -/
def scriptAt? (index : Index) (key : String) : Option Script := do
  let paths ← index.declarers.find? key
  let path ← paths.getLast?
  index.scripts.find? path

/-- The script that answers to a name, in any letter case. -/
def script? (index : Index) (name : String) : Option Script :=
  index.scriptAt? (Script.key name)

/-- How many files are indexed. -/
def fileCount (index : Index) : Nat := index.files.size

/-- How many script names are declared, letter case aside. -/
def scriptCount (index : Index) : Nat := index.declarers.size

end Index
end Papyrus
