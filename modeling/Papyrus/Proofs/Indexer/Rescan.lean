import Papyrus.Proofs.Disk.Roots
import Papyrus.Proofs.Indexer.FullScan

/-!
# Scanning once more

Where the files do not change, a scan leaves nothing to do for the files that it met: one that
can be read is in the cache with its time, and one that cannot be read fails again. This holds
whatever the indexer knew before. So another scan that meets the same files, in any order and
under any spelling, reads none of them and changes nothing at all, the order of the files that
declare a script included.

Roots that are equal to earlier ones bring the same files again. They can be left out, or
scanned as often as one likes.
-/
namespace Papyrus

namespace Indexer

/-- There is nothing to do for a file: if a source gives it, it is up to date in the cache. -/
def Settled (source : FileSource) (indexer : Indexer) (path : Path) : Prop :=
  ∀ file, source.file? path = some file → indexer.cache.isStale path file.1 = false

section Settled

variable {source : FileSource} {indexer : Indexer} {path other : Path}

/-- Whether there is anything to do for a file does not depend on its spelling. -/
theorem Settled.congr (settled : indexer.Settled source path) (same : path == other)
    (sameFile : source.file? path = source.file? other) : indexer.Settled source other := by
  intro file isFile
  rw [← indexer.cache.isStale_congr same]
  exact settled file (sameFile.trans isFile)

/-- Nothing is done where there is nothing to do. -/
theorem Settled.eq_of_indexFile (settled : indexer.Settled source path) {result : Bool × Indexer}
    (done : indexer.indexFile source path = .ok result) : result = (false, indexer) := by
  obtain ⟨modified, timed, ⟨_, same⟩ | ⟨content, stale, opened, _⟩⟩ := indexFile_cases done
  · exact same
  · have gives : source.Gives path (modified, content) := ⟨timed, opened⟩
    have fresh := settled _ (FileSource.file?_eq_some_iff.mpr gives)
    exact absurd stale (by simp [fresh])

/-- After an attempt to bring a file up to date, there is nothing to do for it, and nothing for
any other file for which there was nothing to do. -/
theorem settled_attempt (before : path == other ∨ indexer.Settled source path)
    (sameFile : path == other → source.file? path = source.file? other) :
    (indexer.attempt indexFile source other).Settled source path := by
  intro file isFile
  by_cases same : path == other
  -- The file itself is in the cache by now, or it was there with this time before.
  · rw [sameFile same, FileSource.file?_eq_some_iff] at isFile
    have reached := indexFile_of_gives isFile indexer
    simp only [attempt, reached]
    split
    next => simp [absorb, Cache.isStale_store, BEq.symm same]
    next fresh => rwa [Cache.isStale_congr _ same, ← Bool.not_eq_true]
  · have settled := before.resolve_left same file isFile
    have differs : ¬ other == path := fun equal => same (BEq.symm equal)
    unfold attempt
    split
    next result done =>
      obtain ⟨modified, _, ⟨_, rfl⟩ | ⟨content, _, _, rfl⟩⟩ := indexFile_cases done
      · exact settled
      · rw [absorb, Cache.isStale_store, if_neg differs, settled]
    next => exact settled

/-- After attempts to bring some files up to date, there is nothing to do for any of them. -/
theorem settled_carryOut {paths : List Path} (consistent : source.Consistent paths) :
    ∀ path ∈ paths,
      (indexer.carryOut indexFile (paths.map (.refresh source))).Settled source path := by
  induction paths using List.reverseRecOn with
  | nil => exact fun path member => absurd member List.not_mem_nil
  | append_singleton paths last inductionHypothesis =>
    have earlier := inductionHypothesis fun left leftMet right rightMet =>
      consistent left (List.mem_append_left _ leftMet) right (List.mem_append_left _ rightMet)
    intro path member
    rw [List.map_append, carryOut, List.foldl_append, List.map_singleton, List.foldl_cons,
      List.foldl_nil]
    refine settled_attempt ?_ (consistent path member last (by simp))
    rcases List.mem_append.mp member with isEarlier | isLast
    · exact Or.inr (earlier path isEarlier)
    · exact Or.inl (List.mem_singleton.mp isLast ▸ BEq.rfl)

end Settled

section Scan

variable (source : FileSource) (state : ScanStats × Indexer)

/-- Where there is nothing to do for what a walk came across, it is counted if it is a source
file, but nothing is read and nothing changes. -/
theorem scanVisit_of_settled (visit : Visit)
    (settled : ∀ path, state.2.sourceFile? visit = some path → state.2.Settled source path) :
    (scanVisit source state visit).2 = state.2 ∧
      (scanVisit source state visit).1.parsed = state.1.parsed ∧
      (scanVisit source state visit).1.indexed =
        state.1.indexed + (state.2.encounters [visit]).length := by
  cases visit with
  | failure path => exact ⟨rfl, rfl, rfl⟩
  | directory path => exact ⟨rfl, rfl, rfl⟩
  | file path =>
    by_cases isSource : state.2.isSource path
    · have isMet : state.2.sourceFile? (.file path) = some path := if_pos isSource
      rw [encounters, List.filterMap_cons_some isMet]
      simp only [scanVisit, isSource, if_true]
      cases done : state.2.indexFile source path with
      | error error => exact ⟨rfl, rfl, rfl⟩
      | ok result =>
        rw [(settled path isMet).eq_of_indexFile done]
        exact ⟨rfl, rfl, rfl⟩
    · have isOther : state.2.sourceFile? (.file path) = none := if_neg isSource
      rw [encounters, List.filterMap_cons_none isOther, scanVisit, if_neg isSource]
      exact ⟨rfl, rfl, rfl⟩

/-- Where there is nothing to do for all source files that walks came across, they are counted,
but nothing is read and nothing changes. -/
theorem scanVisits_of_settled {visits : List Visit}
    (settled : ∀ path ∈ state.2.encounters visits, state.2.Settled source path) :
    (scanVisits source state visits).2 = state.2 ∧
      (scanVisits source state visits).1.parsed = state.1.parsed ∧
      (scanVisits source state visits).1.indexed =
        state.1.indexed + (state.2.encounters visits).length := by
  induction visits using List.reverseRecOn with
  | nil => exact ⟨rfl, rfl, rfl⟩
  | append_singleton visits visit inductionHypothesis =>
    have split : state.2.encounters (visits ++ [visit]) =
        state.2.encounters visits ++ state.2.encounters [visit] := List.filterMap_append
    rw [split] at settled ⊢
    obtain ⟨sameState, unread, counted⟩ := inductionHypothesis fun path met =>
      settled path (List.mem_append_left _ met)
    have last := scanVisit_of_settled source (scanVisits source state visits) visit
    rw [sameState, unread, counted] at last
    rw [scanVisits, List.foldl_append, List.foldl_cons, List.foldl_nil, ← scanVisits,
      List.length_append, ← Nat.add_assoc]
    refine last fun path met => settled path (List.mem_append_right _ ?_)
    simp [encounters, met]

end Scan

section Encounters

variable (indexer : Indexer)

/-- Things that are met alike are source files under equal paths, or neither is a source
file. -/
theorem encounters_alike {left right : List Visit} (alike : List.Forall₂ Visit.Alike left right) :
    List.Forall₂ (fun found other : Path => found == other) (indexer.encounters left)
      (indexer.encounters right) := by
  refine List.rel_filterMap (fun {visit other} same => ?_) alike
  cases visit <;> cases other
  case file.file found other =>
    rw [sourceFile?, sourceFile?, indexer.isSource_congr same]
    split
    · exact .some same
    · exact .none
  all_goals first | exact .none | exact same.elim

/-- The source files that walks from some roots come across are those that a walk from one of
the roots comes across. -/
theorem mem_encounters_flatMap (walk : Path → List Visit) (roots : List Path) (path : Path) :
    path ∈ indexer.encounters (roots.flatMap walk) ↔
      ∃ root ∈ roots, path ∈ indexer.encounters (walk root) := by
  rw [encounters, List.filterMap_flatMap, List.mem_flatMap]
  rfl

/-- A source file that is met from a root is met from every equal one. -/
theorem exists_mem_encounters {disk : Disk} (proper : disk.HasProperNames) {root known : Path}
    (same : root == known) {path : Path} (met : path ∈ indexer.encounters (disk.walk root)) :
    ∃ other ∈ indexer.encounters (disk.walk known), other == path := by
  obtain ⟨position, bound, rfl⟩ := List.getElem_of_mem met
  have alike := indexer.encounters_alike (proper.walk_alike same)
  have reached : position < (indexer.encounters (disk.walk known)).length := alike.length_eq ▸ bound
  exact ⟨_, List.getElem_mem reached, BEq.symm (alike.get bound reached)⟩

end Encounters

section Roots

variable (indexer : Indexer) (source : FileSource) (roots more : List Path)

/-- A scan leaves the settings. -/
theorem indexRoots_sameSettings : SameSettings (indexer.indexRoots source roots).2 indexer := by
  change SameSettings ((Call.indexRoots source roots).apply indexer) indexer
  rw [Call.apply_eq_carryOut]
  exact carryOut_sameSettings indexer _

/-- A scan from some roots and then from more of them is a scan from all of them. -/
theorem indexRoots_append :
    (indexer.indexRoots source (roots ++ more)).2 =
      ((indexer.indexRoots source roots).2.indexRoots source more).2 := by
  have settings := indexer.indexRoots_sameSettings source roots
  change (Call.indexRoots source (roots ++ more)).apply indexer =
    (Call.indexRoots source more).apply ((Call.indexRoots source roots).apply indexer)
  change SameSettings ((Call.indexRoots source roots).apply indexer) indexer at settings
  simp only [Call.apply_eq_carryOut] at settings ⊢
  rw [settings.actions_eq]
  simp only [Call.actions]
  split
  next => rfl
  next => simp [encounters, carryOut]

end Roots

section Rescan

variable {disk : Disk} (proper : disk.HasProperNames) {source : FileSource}
  (shows : source.Shows disk) (indexer : Indexer) (free : indexer.scanning = false)

include proper shows free

/-- After a scan there is nothing to do for the source files below its roots, however the roots
are spelled. -/
theorem settled_indexRoots (roots again : List Path)
    (covered : ∀ root ∈ again, ∃ known ∈ roots, root == known) {path : Path}
    (met : path ∈ indexer.encounters (again.flatMap disk.walk)) :
    (indexer.indexRoots source roots).2.Settled source path := by
  obtain ⟨root, isRoot, metThere⟩ := (indexer.mem_encounters_flatMap ..).mp met
  obtain ⟨known, isKnown, sameRoot⟩ := covered root isRoot
  obtain ⟨other, otherMet, same⟩ := indexer.exists_mem_encounters proper sameRoot metThere
  have otherMetFirst : other ∈ indexer.encounters (roots.flatMap disk.walk) :=
    (indexer.mem_encounters_flatMap ..).mpr ⟨known, isKnown, otherMet⟩
  have settled : (indexer.indexRoots source roots).2.Settled source other := by
    simp only [indexRoots, free, Bool.false_eq_true, if_false, scanVisits_snd, shows.walk]
    exact settled_carryOut (shows.consistent proper indexer roots) other otherMetFirst
  have consistent := shows.consistent proper indexer (roots ++ again)
  rw [List.flatMap_append, encounters, List.filterMap_append] at consistent
  exact settled.congr same (consistent other (List.mem_append_left _ otherMetFirst) path
    (List.mem_append_right _ met) same)

/-- A scan from roots that were scanned before meets the source files again, but reads nothing
and changes nothing. -/
theorem indexRoots_of_covered (roots again : List Path)
    (covered : ∀ root ∈ again, ∃ known ∈ roots, root == known) :
    let first := (indexer.indexRoots source roots).2
    ∃ stats, first.indexRoots source again = (some stats, first) ∧ stats.parsed = 0 ∧
      stats.indexed = (first.encounters (again.flatMap source.walk)).length := by
  intro first
  have settings : SameSettings first indexer := indexer.indexRoots_sameSettings source roots
  have nothing : ∀ path ∈ first.encounters (again.flatMap source.walk),
      first.Settled source path := by
    intro path met
    rw [settings.encounters_eq, shows.walk] at met
    exact settled_indexRoots proper shows indexer free roots again covered met
  obtain ⟨unchanged, unread, counted⟩ := scanVisits_of_settled source ({}, first) nothing
  refine ⟨(scanVisits source ({}, first) (again.flatMap source.walk)).1, ?_, unread, ?_⟩
  · rw [indexRoots, settings.scanning, free]
    exact Prod.ext rfl unchanged
  · rw [counted, Nat.zero_add]

/-- Roots that are equal to earlier ones can be left out of a scan. -/
theorem indexRoots_eraseDups (roots : List Path) :
    (indexer.indexRoots source roots.eraseDups).2 = (indexer.indexRoots source roots).2 := by
  induction roots using List.reverseRecOn with
  | nil => rfl
  | append_singleton roots last inductionHypothesis =>
    rw [Path.eraseDups_concat, indexRoots_append]
    split
    next before =>
      obtain ⟨known, isKnown, same⟩ := List.contains_iff_exists_mem_beq.mp before
      obtain ⟨stats, again, _⟩ := indexRoots_of_covered proper shows indexer free roots [last]
        fun root isLast => ⟨known, isKnown, List.mem_singleton.mp isLast ▸ same⟩
      rw [again, inductionHypothesis]
    next => rw [indexRoots_append, inductionHypothesis]

end Rescan

/-- Scanning again changes nothing.

The roots of the second scan are roots of the first one, in any order, any number and any
spelling. Then the second scan meets every source file below them again, but reads none and
leaves the indexer as it is. For the same reason, roots that are equal to earlier ones make no
difference to a scan. -/
theorem rescanning_changes_nothing {disk : Disk} (proper : disk.HasProperNames)
    {source : FileSource} (shows : source.Shows disk) (indexer : Indexer)
    (free : indexer.scanning = false) (roots again : List Path)
    (covered : ∀ root ∈ again, ∃ known ∈ roots, root == known) :
    let first := (indexer.indexRoots source roots).2
    (∃ stats, first.indexRoots source again = (some stats, first) ∧ stats.parsed = 0 ∧
      stats.indexed = (first.encounters (again.flatMap source.walk)).length) ∧
    (indexer.indexRoots source roots.eraseDups).2 = first :=
  ⟨indexRoots_of_covered proper shows indexer free roots again covered,
    indexRoots_eraseDups proper shows indexer free roots⟩

/-- The first scan takes the inner directory twice and the second scan the outer one, each time
under another spelling. -/
theorem rescanning_respelled_roots :
    let roots : List Path := [⟨"/r/sub"⟩, ⟨"/r/."⟩, ⟨"/r/sub/"⟩]
    let again : List Path := [⟨"/r"⟩, ⟨"//r/sub/."⟩, ⟨"/r/"⟩]
    let first := ((new "psc").indexRoots nested.source roots).2
    nested.HasProperNames ∧ nested.source.Shows nested ∧ (new "psc").scanning = false ∧
      (∀ root ∈ again, ∃ known ∈ roots, root == known) ∧
      (∃ stats, first.indexRoots nested.source again = (some stats, first) ∧ stats.parsed = 0) ∧
      ((new "psc").indexRoots nested.source [⟨"/r/sub"⟩, ⟨"/r/."⟩]).2 = first := by
  intro roots again first
  have covered : ∀ root ∈ again, ∃ known ∈ roots, root == known := by decide
  obtain ⟨⟨stats, unchanged, unread, _⟩, withoutRepeated⟩ := rescanning_changes_nothing
    nested_hasProperNames nested.source_shows (new "psc") rfl roots again covered
  exact ⟨nested_hasProperNames, nested.source_shows, rfl, covered, ⟨stats, unchanged, unread⟩,
    withoutRepeated⟩

end Indexer
end Papyrus
