import Papyrus.Indexer
import Papyrus.Proofs.Cache
import Papyrus.Proofs.Extraction.Pass
import Papyrus.Proofs.Index.Invariant

/-!
# Cache and index stay aligned

An indexer keeps what a file gave in two stores: the cache, which decides whether the file
is read again, and the index, which answers questions. If they drifted apart, a file could
vanish from the index and never be read again. They do not: every call absorbs files one at
a time, storing in both, or forgets the same paths in both; a call that fails or finds a
file unchanged stores in neither.

Nothing is assumed of the files. Each call may find other files than the one before, and
any question about them may fail.
-/
namespace Papyrus

namespace Extraction

/-- A script sums up the symbols of its file: it has a name, and its members are the
symbols of each kind in source order. -/
structure Describes (script : Script) (symbols : List Symbol) : Prop where
  named : script.name ≠ ""
  functions : script.functions = Symbol.ofKind .function symbols
  events : script.events = Symbol.ofKind .event symbols
  properties : script.properties = Symbol.ofKind .property symbols

/-- The script of a text sums up the symbols of that text. -/
theorem describes_of_ofText {text : List Char} {fallback : String} {script : Script}
    (found : (ofText text fallback).script = some script) :
    Describes script (ofText text fallback).symbols := by
  simp only [ofText_eq, script?] at found ⊢
  split at found
  next => exact absurd found (by simp)
  next named =>
    have same := Option.some.inj found
    subst same
    exact ⟨by simpa using named, rfl, rfl, rfl⟩

end Extraction

namespace Indexer

/-- Bringing a file up to date fails, changes nothing, or absorbs what the file gave. It is
read only when the cache remembers another time, and the time is the one found before
reading. -/
theorem indexFile_cases {source : FileSource} {indexer : Indexer} {path : Path}
    {result : Bool × Indexer} (done : indexer.indexFile source path = .ok result) :
    ∃ modified, source.modified path = .ok modified ∧
      ((indexer.cache.isStale path modified = false ∧ result = (false, indexer)) ∨
        ∃ content, indexer.cache.isStale path modified = true ∧
          source.read path = .ok content ∧
          result = (true, indexer.absorb path modified (.ofFile path content))) := by
  unfold indexFile at done
  cases timed : source.modified path with
  | error _ => simp [timed, bind, Except.bind] at done
  | ok modified =>
    refine ⟨modified, rfl, ?_⟩
    simp only [timed, bind, Except.bind] at done
    split at done
    next stale =>
      cases opened : source.read path with
      | error _ => simp [opened] at done
      | ok content =>
        simp only [opened] at done
        exact Or.inr ⟨content, stale, rfl, (Except.ok.inj done).symm⟩
    next fresh =>
      exact Or.inl ⟨by simpa using fresh, (Except.ok.inj done).symm⟩

section Preservation

variable {property : Indexer → Prop} (absorbs : ∀ {indexer : Indexer} {path : Path}
  (modified : Timestamp) (content : List UInt8), property indexer → indexer.isSource path →
    property (indexer.absorb path modified (.ofFile path content)))

include absorbs

/-- What every absorption of a source file keeps, bringing one up to date keeps. -/
theorem indexFile_preserves {source : FileSource} {indexer : Indexer} {path : Path}
    {result : Bool × Indexer} (holds : property indexer) (isSource : indexer.isSource path)
    (done : indexer.indexFile source path = .ok result) : property result.2 := by
  obtain ⟨modified, _, ⟨_, same⟩ | ⟨content, _, _, same⟩⟩ := indexFile_cases done
  · exact same ▸ holds
  · exact same ▸ absorbs modified content holds isSource

/-- It is kept by anything that a walk comes across. -/
theorem scanVisit_preserves (source : FileSource) (state : ScanStats × Indexer) (visit : Visit)
    (holds : property state.2) : property (scanVisit source state visit).2 := by
  cases visit with
  | failure path => exact holds
  | directory path => exact holds
  | file path =>
    unfold scanVisit
    by_cases isSource : state.2.isSource path
    · simp only [isSource, if_true]
      cases done : state.2.indexFile source path with
      | error error => exact holds
      | ok result =>
        have kept := indexFile_preserves absorbs holds isSource done
        rcases result with ⟨_ | _, indexer⟩ <;> exact kept
    · simpa [isSource] using holds

/-- It is kept by a scan. -/
theorem indexRoots_preserves (source : FileSource) (indexer : Indexer) (roots : List Path)
    (holds : property indexer) : property (indexer.indexRoots source roots).2 := by
  unfold indexRoots
  split
  · exact holds
  · suffices kept : ∀ (visits : List Visit) (state : ScanStats × Indexer), property state.2 →
        property (scanVisits source state visits).2 from kept _ ({}, indexer) holds
    intro visits
    induction visits with
    | nil => exact fun _ held => held
    | cons visit rest inductionHypothesis =>
      intro state held
      exact inductionHypothesis _ (scanVisit_preserves absorbs source state visit held)

/-- It is kept by a notification of a change. -/
theorem reindex_preserves (source : FileSource) (indexer : Indexer) (path : Path)
    (holds : property indexer) : property (indexer.reindex source path).2 := by
  unfold reindex
  by_cases isSource : indexer.isSource path
  · simp only [isSource, if_true]
    cases done : indexer.indexFile source path with
    | error error => exact holds
    | ok result => exact indexFile_preserves absorbs holds isSource done
  · simpa [isSource] using holds

end Preservation

section Alignment

/-- Cache and index know the same files with the same symbols, all of them source files,
and every script sums up the symbols of its file. -/
structure Aligned (indexer : Indexer) : Prop where
  valid : indexer.index.Valid
  remembered : ∀ path, indexer.cache.symbols? path = indexer.index.symbols? path
  sources : ∀ path, (indexer.index.symbols? path).isSome → indexer.isSource path
  described : ∀ path symbols script, indexer.index.symbols? path = some symbols →
    indexer.index.scripts.find? path = some script → Extraction.Describes script symbols

/-- Equal paths are sources together. -/
theorem isSource_congr (indexer : Indexer) {left right : Path} (same : left == right) :
    indexer.isSource left = indexer.isSource right := by
  rw [isSource, isSource, Path.extension?_congr same]

/-- An indexer that knows no files is aligned. -/
theorem new_aligned (extension : String) : (new extension).Aligned where
  valid := Index.empty_valid
  remembered _ := rfl
  sources _ known := Bool.noConfusion known
  described _ symbols _ known := absurd known.symm (Option.some_ne_none symbols)

variable {indexer : Indexer} (aligned : indexer.Aligned)

include aligned

/-- Absorbing a source file puts the same symbols into both stores, with a script made
from them. -/
theorem Aligned.absorb {path : Path} (modified : Timestamp) (content : List UInt8)
    (isSource : indexer.isSource path) :
    (indexer.absorb path modified (.ofFile path content)).Aligned where
  valid := aligned.valid.put path _ _
  remembered other := by
    have remembered := aligned.remembered other
    simp only [Indexer.absorb, Cache.symbols?, Cache.find?_store,
      Index.symbols?_put] at remembered ⊢
    split
    · rfl
    · exact remembered
  sources other known := by
    simp only [Indexer.absorb, Index.symbols?_put] at known
    change indexer.isSource other
    split at known
    next same => rw [← isSource_congr indexer same, isSource]
    next => exact aligned.sources other known
  described other symbols script known found := by
    simp only [Indexer.absorb, Index.symbols?_put, Index.find?_put_scripts] at known found
    split at known
    next same =>
      rw [if_pos same] at found
      rw [← Option.some.inj known]
      exact Extraction.describes_of_ofText found
    next differs =>
      rw [if_neg differs] at found
      exact aligned.described other symbols script known found

/-- Forgetting takes the same paths out of both stores. -/
theorem Aligned.forget (above : Path) : (indexer.forget above).2.Aligned where
  valid := aligned.valid.removeUnder above
  remembered other := by
    have remembered := aligned.remembered other
    simp only [Indexer.forget, Cache.symbols?, Cache.find?_removeUnder,
      Index.symbols?_removeUnder] at remembered ⊢
    split
    · rfl
    · exact remembered
  sources other known := by
    simp only [Indexer.forget, Index.symbols?_removeUnder] at known
    change indexer.isSource other
    split at known
    · exact Bool.noConfusion known
    · exact aligned.sources other known
  described other symbols script known found := by
    simp only [Indexer.forget, Index.symbols?_removeUnder,
      aligned.valid.find?_removeUnder_scripts] at known found
    split at known
    next => exact absurd known.symm (Option.some_ne_none symbols)
    next kept =>
      rw [if_neg kept] at found
      exact aligned.described other symbols script known found

/-- The two stores have the same paths. -/
theorem Aligned.contains_entries (path : Path) :
    indexer.cache.entries.contains path = indexer.index.files.contains path := by
  have remembered := congrArg Option.isSome (aligned.remembered path)
  rw [Cache.symbols?, Option.isSome_map] at remembered
  rw [Table.contains_eq_isSome, Table.contains_eq_isSome]
  exact remembered

/-- The two stores have as many paths as each other. -/
theorem Aligned.size_eq_fileCount : indexer.cache.size = indexer.index.fileCount :=
  Table.size_congr Path.components Path.beq_iff_components _ _ aligned.contains_entries

/-- Forgetting reports the same number of paths for both stores: they have as many paths as
each other before it and after it. -/
theorem Aligned.counts_removeUnder (above : Path) :
    (indexer.cache.removeUnder above).1 = (indexer.index.removeUnder above).1 := by
  have before : indexer.cache.size = indexer.index.fileCount := aligned.size_eq_fileCount
  have after : (indexer.cache.removeUnder above).2.size =
      (indexer.index.removeUnder above).2.fileCount := (aligned.forget above).size_eq_fileCount
  have fromCache := indexer.cache.removeUnder_fst_add_size above
  have fromIndex := indexer.index.removeUnder_fst_add_fileCount above
  omega

end Alignment

section Runs

/-- A request to an indexer, with the files as they are found at that time. -/
inductive Call where
  | indexRoots (source : FileSource) (roots : List Path)
  | reindex (source : FileSource) (path : Path)
  | forget (path : Path)

/-- The indexer after a request. -/
def Call.apply (indexer : Indexer) : Call → Indexer
  | .indexRoots source roots => (indexer.indexRoots source roots).2
  | .reindex source path => (indexer.reindex source path).2
  | .forget path => (indexer.forget path).2

/-- The indexer after some requests, one after the other. -/
def perform (indexer : Indexer) (calls : List Call) : Indexer :=
  calls.foldl Call.apply indexer

/-- Every request keeps the stores aligned, whatever files it finds. -/
theorem Aligned.apply {indexer : Indexer} (aligned : indexer.Aligned) (call : Call) :
    (call.apply indexer).Aligned := by
  cases call with
  | indexRoots source roots =>
    exact indexRoots_preserves (fun modified content held => held.absorb modified content)
      source indexer roots aligned
  | reindex source path =>
    exact reindex_preserves (fun modified content held => held.absorb modified content)
      source indexer path aligned
  | forget path => exact aligned.forget path

/-- Every sequence of requests keeps the stores aligned. -/
theorem Aligned.perform {indexer : Indexer} (aligned : indexer.Aligned) (calls : List Call) :
    (indexer.perform calls).Aligned := by
  induction calls generalizing indexer with
  | nil => exact aligned
  | cons call rest inductionHypothesis => exact inductionHypothesis (aligned.apply call)

/-- After any sequence of requests, with any files found and any failures in between, the
stores of an indexer agree.

They have the same paths with the same symbols, and these are source files. A file with a
script is indexed, and the script has a name and exactly the functions, events and
properties among the symbols of the file. Hence forgetting a path counts the same in both
stores, and leaves nothing at or below it in either. -/
theorem stores_agree_after_every_run (extension : String) (calls : List Call) :
    let indexer := (new extension).perform calls
    (∀ path, indexer.cache.entries.contains path = indexer.index.files.contains path) ∧
    (∀ path, indexer.cache.symbols? path = indexer.index.symbols? path) ∧
    (∀ path, indexer.index.files.contains path → indexer.isSource path) ∧
    (∀ path script, indexer.index.scripts.find? path = some script →
      ∃ symbols, indexer.index.symbols? path = some symbols ∧ script.name ≠ "" ∧
        script.functions = Symbol.ofKind .function symbols ∧
        script.events = Symbol.ofKind .event symbols ∧
        script.properties = Symbol.ofKind .property symbols) ∧
    (∀ path, (indexer.cache.removeUnder path).1 = (indexer.index.removeUnder path).1) ∧
    (∀ path other, other.startsWith path →
      (indexer.forget path).2.cache.entries.contains other = false ∧
        (indexer.forget path).2.index.files.contains other = false) := by
  intro indexer
  have aligned : indexer.Aligned := (new_aligned extension).perform calls
  refine ⟨aligned.contains_entries, aligned.remembered, ?_, ?_, aligned.counts_removeUnder, ?_⟩
  · intro path known
    rw [Table.contains_eq_isSome] at known
    exact aligned.sources path known
  · intro path script found
    cases known : indexer.index.symbols? path with
    | none =>
      rw [aligned.valid.indexed path known] at found
      exact absurd found.symm (Option.some_ne_none script)
    | some symbols =>
      have described := aligned.described path symbols script known found
      exact ⟨symbols, rfl, described.named, described.functions, described.events,
        described.properties⟩
  · intro path other below
    have unknown : (indexer.forget path).2.index.files.contains other = false := by
      have removed := Index.symbols?_removeUnder indexer.index path other
      rw [if_pos below, Index.symbols?] at removed
      rw [Table.contains_eq_isSome]
      exact congrArg Option.isSome removed
    exact ⟨((aligned.forget path).contains_entries other).trans unknown, unknown⟩

end Runs

end Indexer
end Papyrus
