import Papyrus.Path
import Papyrus.Symbol
import Papyrus.Table
import Papyrus.Timestamp

/-!
# The file cache

The cache remembers, for each file, the modification time it was read at and the
symbols it gave. A file is read again unless its time is exactly the remembered one:
an older time counts as a change just as a newer one does.
-/
namespace Papyrus

/-- What is remembered of a file. -/
structure Cache.Entry where
  modified : Timestamp
  symbols : List Symbol
  deriving DecidableEq, Repr

/-- The remembered files. -/
structure Cache where
  entries : Table Path Cache.Entry

namespace Cache

/-- The cache that remembers nothing. -/
def empty : Cache := ⟨.empty⟩

instance : Inhabited Cache := ⟨empty⟩

/-- Whether a file with the given modification time has to be read. -/
def isStale (cache : Cache) (path : Path) (modified : Timestamp) : Bool :=
  match cache.entries.find? path with
  | some entry => entry.modified ≠ modified
  | none => true

/-- Remember what a file gave at a time, in place of what was remembered. -/
def store (cache : Cache) (path : Path) (modified : Timestamp) (symbols : List Symbol) : Cache :=
  ⟨cache.entries.insert path ⟨modified, symbols⟩⟩

/-- The symbols remembered for a file. -/
def symbols? (cache : Cache) (path : Path) : Option (List Symbol) :=
  (cache.entries.find? path).map (·.symbols)

/-- Forget a file, and say whether it was remembered. -/
def remove (cache : Cache) (path : Path) : Bool × Cache :=
  (cache.entries.contains path, ⟨cache.entries.erase path⟩)

/-- How many files are remembered. -/
def size (cache : Cache) : Nat := cache.entries.size

/-- Forget every file at or below a path, and say how many there were. -/
def removeUnder (cache : Cache) (above : Path) : Nat × Cache :=
  let kept : Cache := ⟨cache.entries.eraseIf (·.startsWith above)⟩
  (cache.size - kept.size, kept)

end Cache
end Papyrus
