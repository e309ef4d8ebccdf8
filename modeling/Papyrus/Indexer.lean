import Papyrus.Cache
import Papyrus.Extraction
import Papyrus.FileSource
import Papyrus.Index
import Papyrus.Text.Utf8

/-!
# Indexing files

An indexer keeps an index of the source files below some roots, and a cache that
spares it reading files whose modification time has not changed. The time is taken
before the content is read, so a change in between is noticed the next time. Nothing
that goes wrong with one file or directory affects another: it is counted, and what
was known about a file that cannot be read stays known.
-/
namespace Papyrus

/-- What a scan did. -/
structure ScanStats where
  /-- Source files met. -/
  indexed : Nat := 0
  /-- Files read and extracted. -/
  parsed : Nat := 0
  /-- Files left as they were remembered. -/
  cached : Nat := 0
  /-- Files and directory entries that failed. -/
  errors : Nat := 0
  deriving DecidableEq, Repr

/-- An index with the means to keep it up to date. -/
structure Indexer where
  /-- The extension of source files, without its dot. -/
  extension : String
  index : Index := .empty
  cache : Cache := .empty
  /-- How often a file was extracted. -/
  parses : Nat := 0
  /-- Whether a scan is going on. -/
  scanning : Bool := false

/-- The extension of source files where nothing else is said. -/
def defaultExtension : String := "psc"

/-- An extension without the dots in front of it. -/
def bareExtension (extension : String) : String :=
  String.ofList (extension.toList.dropWhile (· = '.'))

/-- What a text gives that was read from a file. The file's name stands in for a
script name that the text does not give. -/
def Extraction.ofFile (path : Path) (content : List UInt8) : Extraction :=
  .ofText (Text.Utf8.decodeLossy content) (path.stem?.getD "")

namespace Indexer

/-- An indexer that knows no files, for an extension with or without its dot. -/
def new (extension : String) : Indexer := { extension := bareExtension extension }

instance : Inhabited Indexer := ⟨new defaultExtension⟩

/-- Whether a path has the source extension, in any letter case. -/
def isSource (indexer : Indexer) (path : Path) : Bool :=
  path.extension?.any fun extension => Text.sameName extension indexer.extension

/-- Take the right to scan, and say whether it was free. -/
def beginScan (indexer : Indexer) : Bool × Indexer :=
  (!indexer.scanning, { indexer with scanning := true })

/-- Give the right to scan back. -/
def endScan (indexer : Indexer) : Indexer :=
  { indexer with scanning := false }

/-- Record what a file gave at a time, in the cache and then in the index. -/
def absorb (indexer : Indexer) (path : Path) (modified : Timestamp) (extraction : Extraction) :
    Indexer :=
  { indexer with
    parses := indexer.parses + 1
    cache := indexer.cache.store path modified extraction.symbols
    index := indexer.index.put path extraction.symbols extraction.script }

/-- Bring one file up to date, and say whether it had to be read. -/
def indexFile (source : FileSource) (indexer : Indexer) (path : Path) :
    Except FileError (Bool × Indexer) := do
  let modified ← source.modified path
  if indexer.cache.isStale path modified then
    let content ← source.read path
    return (true, indexer.absorb path modified (.ofFile path content))
  else return (false, indexer)

/-- Deal with one thing that a walk came across. -/
def scanVisit (source : FileSource) (state : ScanStats × Indexer) : Visit → ScanStats × Indexer
  | .failure _ => ({ state.1 with errors := state.1.errors + 1 }, state.2)
  | .directory _ => state
  | .file path =>
    if state.2.isSource path then
      let stats := { state.1 with indexed := state.1.indexed + 1 }
      match state.2.indexFile source path with
      | .ok (true, indexer) => ({ stats with parsed := stats.parsed + 1 }, indexer)
      | .ok (false, indexer) => ({ stats with cached := stats.cached + 1 }, indexer)
      | .error _ => ({ stats with errors := stats.errors + 1 }, state.2)
    else state

/-- Deal with everything that walks came across. -/
def scanVisits (source : FileSource) (state : ScanStats × Indexer) (visits : List Visit) :
    ScanStats × Indexer :=
  visits.foldl (scanVisit source) state

/-- Index every source file below some roots, one root after the other. A root that
is no directory is passed over. Nothing happens while another scan is going on. -/
def indexRoots (source : FileSource) (indexer : Indexer) (roots : List Path) :
    Option ScanStats × Indexer :=
  if indexer.scanning then (none, indexer)
  else
    let (stats, indexed) := scanVisits source ({}, indexer) (roots.flatMap source.walk)
    (some stats, indexed)

/-- Bring one file up to date after a change, and say whether it was read. Other
files than sources are ignored, and so are failures. -/
def reindex (source : FileSource) (indexer : Indexer) (path : Path) : Bool × Indexer :=
  if indexer.isSource path then
    match indexer.indexFile source path with
    | .ok result => result
    | .error _ => (false, indexer)
  else (false, indexer)

/-- Forget every file at or below a path, and say whether there was any. -/
def forget (indexer : Indexer) (path : Path) : Bool × Indexer :=
  let (cached, cache) := indexer.cache.removeUnder path
  let (indexed, index) := indexer.index.removeUnder path
  (cached > 0 || indexed > 0, { indexer with cache, index })

end Indexer
end Papyrus
