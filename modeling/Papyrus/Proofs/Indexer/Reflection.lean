import Papyrus.Proofs.Indexer.Alignment

/-!
# What an indexer knows of files

An indexer knows a file when it has absorbed it and not forgotten it since. Everything in
its stores then follows from what it knows: the time in the cache, the symbols in both
stores, and the script are those of the file as it was when it was absorbed. Two indexers
that know the same files give the same symbols and the same scripts, in whatever order they
came to know them.

The one thing that the order decides is which of several files answers for a script name
that they share. Nothing is claimed about that here.
-/
namespace Papyrus

/-- Some files: when each was changed last, and what it holds. -/
abbrev Files := Path → Option (Timestamp × List UInt8)

namespace Files

/-- The files with one more, or with another in its place. -/
def learn (files : Files) (path : Path) (file : Timestamp × List UInt8) : Files :=
  fun other => if path == other then some file else files other

/-- The files that are not at or below a path. -/
def drop (files : Files) (above : Path) : Files :=
  fun other => if other.startsWith above then none else files other

end Files

/-- A source gives the time and the content of a file. -/
def FileSource.Gives (source : FileSource) (path : Path) (file : Timestamp × List UInt8) : Prop :=
  source.modified path = .ok file.1 ∧ source.read path = .ok file.2

/-- Equal paths give the same extraction for the same content. -/
theorem Extraction.ofFile_congr {left right : Path} (same : left == right)
    (content : List UInt8) : ofFile left content = ofFile right content := by
  rw [ofFile, ofFile, Path.stem?_congr same]

namespace Indexer

/-- The stores of an indexer are those of the files it knows. -/
structure Reflects (indexer : Indexer) (known : Files) : Prop where
  valid : indexer.index.Valid
  respected : ∀ left right : Path, left == right → known left = known right
  remembered : ∀ path, indexer.cache.entries.find? path =
    (known path).map fun file => ⟨file.1, (Extraction.ofFile path file.2).symbols⟩
  symbols : ∀ path, indexer.index.symbols? path =
    (known path).map fun file => (Extraction.ofFile path file.2).symbols
  scripts : ∀ path, indexer.index.scripts.find? path =
    (known path).bind fun file => (Extraction.ofFile path file.2).script

/-- A new indexer knows no files. -/
theorem new_reflects (extension : String) : (new extension).Reflects fun _ => none where
  valid := Index.empty_valid
  respected _ _ _ := rfl
  remembered _ := rfl
  symbols _ := rfl
  scripts _ := rfl

/-- With the time and the content at hand, bringing a file up to date succeeds. -/
theorem indexFile_of_gives {source : FileSource} {path : Path} {file : Timestamp × List UInt8}
    (gives : source.Gives path file) (indexer : Indexer) :
    indexer.indexFile source path =
      .ok (if indexer.cache.isStale path file.1 then
        (true, indexer.absorb path file.1 (.ofFile path file.2)) else (false, indexer)) := by
  unfold indexFile
  simp only [gives.1, gives.2, bind, Except.bind]
  split <;> rfl

section Known

variable {indexer : Indexer} {known : Files} (reflects : indexer.Reflects known)

include reflects

/-- What an indexer reflects depends on its stores alone. -/
theorem Reflects.of_stores {other : Indexer} (index : other.index = indexer.index)
    (cache : other.cache = indexer.cache) : other.Reflects known := by
  obtain ⟨valid, respected, remembered, symbols, scripts⟩ := reflects
  rw [← index] at valid symbols scripts
  rw [← cache] at remembered
  exact ⟨valid, respected, remembered, symbols, scripts⟩

/-- An indexer that absorbs a file knows it. -/
theorem Reflects.absorb (path : Path) (file : Timestamp × List UInt8) :
    (indexer.absorb path file.1 (.ofFile path file.2)).Reflects (known.learn path file) where
  valid := reflects.valid.put path _ _
  respected left right same := by
    rw [Files.learn, Files.learn, BEq.congr_right same, reflects.respected left right same]
  remembered other := by
    simp only [Indexer.absorb, Cache.find?_store, Files.learn]
    split
    next same => rw [Option.map_some, Extraction.ofFile_congr same]
    next => exact reflects.remembered other
  symbols other := by
    simp only [Indexer.absorb, Index.symbols?_put, Files.learn]
    split
    next same => rw [Option.map_some, Extraction.ofFile_congr same]
    next => exact reflects.symbols other
  scripts other := by
    simp only [Indexer.absorb, Index.find?_put_scripts, Files.learn]
    split
    next same => rw [Option.bind_some, Extraction.ofFile_congr same]
    next => exact reflects.scripts other

/-- An indexer that forgets a path knows nothing at or below it. -/
theorem Reflects.forget (above : Path) :
    (indexer.forget above).2.Reflects (known.drop above) where
  valid := reflects.valid.removeUnder above
  respected left right same := by
    rw [Files.drop, Files.drop, Path.startsWith_congr same, reflects.respected left right same]
  remembered other := by
    simp only [Indexer.forget, Cache.find?_removeUnder, Files.drop]
    split
    · rfl
    · exact reflects.remembered other
  symbols other := by
    simp only [Indexer.forget, Index.symbols?_removeUnder, Files.drop]
    split
    · rfl
    · exact reflects.symbols other
  scripts other := by
    simp only [Indexer.forget, reflects.valid.find?_removeUnder_scripts, Files.drop]
    split
    · rfl
    · exact reflects.scripts other

/-- A file that is not read again is known with the time at hand. -/
theorem Reflects.known_of_fresh {path : Path} {modified : Timestamp}
    (fresh : indexer.cache.isStale path modified = false) :
    ∃ content, known path = some (modified, content) ∧
      indexer.cache.entries.find? path =
        some ⟨modified, (Extraction.ofFile path content).symbols⟩ := by
  obtain ⟨symbols, found⟩ := (indexer.cache.isStale_eq_false_iff path modified).mp fresh
  rw [reflects.remembered] at found
  obtain ⟨⟨time, content⟩, isKnown, same⟩ := Option.map_eq_some_iff.mp found
  obtain ⟨rfl, -⟩ := Cache.Entry.mk.inj same
  exact ⟨content, isKnown, by rw [reflects.remembered, isKnown, Option.map_some]⟩

/-- A file is read again unless it is known with the time at hand. -/
theorem Reflects.isStale_iff (path : Path) (modified : Timestamp) :
    indexer.cache.isStale path modified ↔ ∀ content, known path ≠ some (modified, content) := by
  constructor
  · intro stale content isKnown
    have fresh : indexer.cache.isStale path modified = false := by
      rw [Cache.isStale_eq_false_iff, reflects.remembered, isKnown]
      exact ⟨_, rfl⟩
    rw [fresh] at stale
    exact Bool.noConfusion stale
  · intro unknown
    by_contra fresh
    rw [Bool.not_eq_true] at fresh
    obtain ⟨content, isKnown, _⟩ := reflects.known_of_fresh fresh
    exact unknown content isKnown

/-- Bringing a file up to date makes it known as it is now, unless it has changed without
changing its time. -/
theorem Reflects.indexFile {source : FileSource} {path : Path} {file : Timestamp × List UInt8}
    (gives : source.Gives path file) (timely : ∀ content, known path = some (file.1, content) →
      content = file.2) {result : Bool × Indexer}
    (done : indexer.indexFile source path = .ok result) :
    result.2.Reflects (known.learn path file) := by
  rw [indexFile_of_gives gives] at done
  obtain rfl := Except.ok.inj done
  split
  next => exact reflects.absorb path file
  next fresh =>
    -- The file is known as it is, so that learning it again changes nothing.
    obtain ⟨content, isKnown, _⟩ := reflects.known_of_fresh (Bool.eq_false_iff.mpr fresh)
    rw [timely content isKnown] at isKnown
    have unchanged : known.learn path file = known := by
      funext other
      rw [Files.learn]
      split
      next same => rw [← reflects.respected path other same, isKnown]
      next => rfl
    rw [unchanged]
    exact reflects

end Known

section Scan

/-- Whether a path is among the source files that walks came across. -/
def meets (indexer : Indexer) (visits : List Visit) (path : Path) : Bool :=
  visits.any fun
    | .file found => indexer.isSource found && found == path
    | .directory _ | .failure _ => false

/-- The first thing that a walk comes across is met, or one of the others. -/
theorem meets_cons (indexer : Indexer) (visit : Visit) (rest : List Visit) (path : Path) :
    indexer.meets (visit :: rest) path =
      (indexer.meets [visit] path || indexer.meets rest path) := by
  simp only [meets, List.any_cons, List.any_nil, Bool.or_false]

variable {source : FileSource} {files : Files}
  (respected : ∀ left right : Path, left == right → files left = files right)

include respected

/-- What a walk comes across makes at most one more file known, and that as it is now.

What was known before has to be as it is now, because a file is not read again if its time
has not changed. -/
theorem Reflects.scanVisit {state : ScanStats × Indexer} {known : Files}
    (reflects : state.2.Reflects known)
    (current : ∀ path file, known path = some file → files path = some file) {visit : Visit}
    (given : ∀ path, visit = .file path → ∃ file, files path = some file ∧ source.Gives path file) :
    (scanVisit source state visit).2.Reflects fun path =>
      if state.2.meets [visit] path then files path else known path := by
  cases visit with
  | failure path => simpa [Indexer.scanVisit, meets] using reflects
  | directory path => simpa [Indexer.scanVisit, meets] using reflects
  | file path =>
    by_cases isSource : state.2.isSource path
    · obtain ⟨file, isFile, gives⟩ := given path rfl
      have timely (content : List UInt8) (isKnown : known path = some (file.1, content)) :
          content = file.2 := by
        have same := (current path _ isKnown).symm.trans isFile
        exact congrArg Prod.snd (Option.some.inj same)
      have learned : (fun other => if state.2.meets [.file path] other then files other
          else known other) = known.learn path file := by
        funext other
        simp only [meets, List.any_cons, List.any_nil, Bool.or_false, isSource, Bool.true_and,
          Files.learn]
        split
        next same => rw [← respected path other same, isFile]
        next => rfl
      rw [learned]
      have reached := indexFile_of_gives gives state.2
      have kept := reflects.indexFile gives timely reached
      simp only [Indexer.scanVisit, isSource, if_true, reached]
      split at kept
      next stale => simpa [stale] using kept
      next fresh => simpa [fresh] using kept
    · simpa [Indexer.scanVisit, meets, isSource] using reflects

/-- What walks come across makes the source files among it known as they are now. -/
theorem Reflects.scanVisits {state : ScanStats × Indexer} {known : Files}
    (reflects : state.2.Reflects known)
    (current : ∀ path file, known path = some file → files path = some file)
    {visits : List Visit} (given : ∀ path, .file path ∈ visits →
      ∃ file, files path = some file ∧ source.Gives path file) :
    (scanVisits source state visits).2.Reflects fun path =>
      if state.2.meets visits path then files path else known path := by
  induction visits generalizing state known with
  | nil => simpa [Indexer.scanVisits, meets] using reflects
  | cons visit rest inductionHypothesis =>
    have step := reflects.scanVisit respected current fun path same =>
      given path (same ▸ List.mem_cons_self)
    have sameExtension : (Indexer.scanVisit source state visit).2.extension = state.2.extension :=
      @scanVisit_preserves (fun indexer => indexer.extension = state.2.extension)
        (fun _ _ same _ => same) source state visit rfl
    have stillCurrent (path : Path) (file : Timestamp × List UInt8)
        (isKnown : (if state.2.meets [visit] path then files path else known path) = some file) :
        files path = some file := by
      split at isKnown
      · exact isKnown
      · exact current path file isKnown
    have last := inductionHypothesis step stillCurrent fun path member =>
      given path (List.mem_cons_of_mem visit member)
    have together (path : Path) :
        (if (Indexer.scanVisit source state visit).2.meets rest path then files path
          else if state.2.meets [visit] path then files path else known path) =
        if state.2.meets (visit :: rest) path then files path else known path := by
      have sameRest : (Indexer.scanVisit source state visit).2.meets rest path =
          state.2.meets rest path := by
        simp only [meets, isSource, sameExtension]
      rw [sameRest, meets_cons state.2 visit rest]
      cases state.2.meets [visit] path <;> cases state.2.meets rest path <;> rfl
    rw [← funext together]
    exact last

/-- After a scan a new indexer knows exactly the source files that the walks came across. -/
theorem new_indexRoots_reflects (extension : String) (roots : List Path)
    (given : ∀ path, .file path ∈ roots.flatMap source.walk →
      ∃ file, files path = some file ∧ source.Gives path file) :
    ((new extension).indexRoots source roots).2.Reflects fun path =>
      if (new extension).meets (roots.flatMap source.walk) path then files path else none :=
  Reflects.scanVisits respected (new_reflects extension)
    (fun _ file isKnown => absurd isKnown.symm (Option.some_ne_none file)) given

end Scan

end Indexer
end Papyrus
