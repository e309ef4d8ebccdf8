import Papyrus.Proofs.Indexer.Alignment

/-!
# Updates, one step at a time

Cache and index are two stores, and each is locked for itself. An update of them is made of
steps between which others may act: to bring a file up to date, its time is taken, the cache
is asked, the file is read, the cache is written and then the index; to forget a path, the
cache is purged and then the index. Each step works on the stores as it finds them, and on
the files as they are by then.

Taken without a pause, the steps are the calls `indexFile` and `forget`.
-/
namespace Papyrus.Indexer

/-- An update under way: what it does next, with what it has found out so far. -/
inductive Update where
  | stat (path : Path)
  | check (path : Path) (modified : Timestamp)
  | read (path : Path) (modified : Timestamp)
  | store (path : Path) (modified : Timestamp) (extraction : Extraction)
  | put (path : Path) (extraction : Extraction)
  | purgeCache (above : Path)
  | purgeIndex (above : Path) (purged : Nat)
  | finished (answer : Except FileError Bool)

namespace Update

/-- The next step of an update: the stores after it, and the update from there on. -/
def step (source : FileSource) (indexer : Indexer) : Update → Indexer × Update
  | .stat path =>
    match source.modified path with
    | .ok modified => (indexer, .check path modified)
    | .error error => (indexer, .finished (.error error))
  | .check path modified =>
    if indexer.cache.isStale path modified then (indexer, .read path modified)
    else (indexer, .finished (.ok false))
  | .read path modified =>
    match source.read path with
    | .ok content =>
      ({ indexer with parses := indexer.parses + 1 },
        .store path modified (.ofFile path content))
    | .error error => (indexer, .finished (.error error))
  | .store path modified extraction =>
    ({ indexer with cache := indexer.cache.store path modified extraction.symbols },
      .put path extraction)
  | .put path extraction =>
    ({ indexer with index := indexer.index.put path extraction.symbols extraction.script },
      .finished (.ok true))
  | .purgeCache above =>
    ({ indexer with cache := (indexer.cache.removeUnder above).2 },
      .purgeIndex above (indexer.cache.removeUnder above).1)
  | .purgeIndex above purged =>
    ({ indexer with index := (indexer.index.removeUnder above).2 },
      .finished (.ok (purged > 0 || (indexer.index.removeUnder above).1 > 0)))
  | .finished answer => (indexer, .finished answer)

/-- The stores and an update after its next step. -/
def advance (source : FileSource) (state : Indexer × Update) : Indexer × Update :=
  state.2.step source state.1

/-- Whether an update has not done anything yet. -/
def isBeginning : Update → Bool
  | .stat _ | .purgeCache _ => true
  | _ => false

/-- Whether an update has no more to do. -/
def isFinished : Update → Bool
  | .finished _ => true
  | _ => false

/-- An update that has no more to do stays as it is. -/
theorem advance_finished (source : FileSource) (indexer : Indexer)
    (answer : Except FileError Bool) (count : Nat) :
    (advance source)^[count] (indexer, .finished answer) = (indexer, .finished answer) :=
  Function.iterate_fixed rfl count

/-- Five steps without a pause bring a file up to date. -/
theorem advance_stat (source : FileSource) (indexer : Indexer) (path : Path) :
    (advance source)^[5] (indexer, .stat path) =
      match indexer.indexFile source path with
      | .ok (parsed, after) => (after, .finished (.ok parsed))
      | .error error => (indexer, .finished (.error error)) := by
  unfold indexFile
  rw [Function.iterate_succ_apply, advance, step]
  cases source.modified path with
  | error error => exact advance_finished source indexer _ 4
  | ok modified =>
    simp only [bind, Except.bind]
    rw [Function.iterate_succ_apply, advance, step]
    by_cases stale : indexer.cache.isStale path modified
    · rw [if_pos stale, if_pos stale, Function.iterate_succ_apply, advance, step]
      cases source.read path with
      | error error => exact advance_finished source indexer _ 2
      | ok content => rfl
    · rw [if_neg stale, if_neg stale]
      exact advance_finished source indexer _ 3

/-- Two steps without a pause forget a path. -/
theorem advance_purgeCache (source : FileSource) (indexer : Indexer) (path : Path) :
    (advance source)^[2] (indexer, .purgeCache path) =
      ((indexer.forget path).2, .finished (.ok (indexer.forget path).1)) := rfl

end Update

/-- Files that all have one time and one content. -/
def uniform (time : Int) (content : List UInt8) : FileSource :=
  ⟨fun _ => .ok ⟨time⟩, fun _ => .ok content, fun _ => []⟩

end Papyrus.Indexer
