import Papyrus.Proofs.Disk.Edit
import Papyrus.Proofs.Disk.Walk
import Papyrus.Proofs.Indexer.Reflection

/-!
# Keeping up agrees with starting over

An indexer that scanned its roots once and was told of every change since knows the same
files as a new indexer that scans the roots now. A file that is written and a path that is
removed are each told at once. The paths are absolute and have no `..`, as the paths of file
URLs are, and there are no links, so that a file has one path up to spelling. A file that is
written gets another time than the one remembered for it, or it would not be read again.

What an indexer should know is told from the disk alone: the source files below the roots,
as they are now. A scan makes it known, and each change to the disk does to it what the
news of the change does to the indexer. Which of several files answers for a name they
share may differ, because it is the one that was indexed last.
-/
namespace Papyrus

/-- A file that declares a script of a name, letter case aside, with that script. -/
def Files.Declares (files : Files) (name : String) (path : Path) (script : Script) : Prop :=
  ((files path).bind fun file => (Extraction.ofFile path file.2).script) = some script ∧
    Script.key script.name = Script.key name

namespace Indexer

/-- The source files that lie below some roots. -/
def sourceFiles (indexer : Indexer) (disk : Disk) (roots : List Path) : Files :=
  fun path =>
    if indexer.isSource path && roots.any (path.isBelow ·) then disk.file? path else none

section Scan

variable {disk : Disk} (tree : disk.IsTree) {roots : List Path}
  (plain : ∀ root ∈ roots, root.IsPlain)

include tree plain

/-- Where there is a file, walks from the roots come across it as a source file exactly if
it is one and lies below a root. -/
theorem meets_walks (indexer : Indexer) {path : Path} {file : Timestamp × List UInt8}
    (isFile : disk.file? path = some file) :
    indexer.meets (roots.flatMap disk.walk) path =
      (indexer.isSource path && roots.any (path.isBelow ·)) := by
  rw [Bool.eq_iff_iff, meets, List.any_eq_true, Bool.and_eq_true, List.any_eq_true]
  constructor
  · rintro ⟨visit, member, met⟩
    cases visit with
    | failure _ => exact Bool.noConfusion met
    | directory _ => exact Bool.noConfusion met
    | file found =>
      obtain ⟨isSource, same⟩ := Bool.and_eq_true_iff.mp met
      obtain ⟨root, isRoot, walked⟩ := List.mem_flatMap.mp member
      obtain ⟨trail, named⟩ := (Path.exists_trail?_iff root).mpr (plain root isRoot)
      obtain ⟨_, _, _, below, _⟩ := tree.file_of_mem_walk named walked
      exact ⟨isSource_congr indexer same ▸ isSource, root, isRoot,
        Path.isBelow_congr same root ▸ below⟩
  · rintro ⟨isSource, root, isRoot, below⟩
    obtain ⟨trail, named⟩ := (Path.exists_trail?_iff root).mpr (plain root isRoot)
    obtain ⟨found, same, walked⟩ := tree.mem_walk_of_file named isFile below
    refine ⟨.file found, List.mem_flatMap.mpr ⟨root, isRoot, walked⟩, ?_⟩
    exact Bool.and_eq_true_iff.mpr ⟨(isSource_congr indexer same).trans isSource, same⟩

/-- After a scan a new indexer knows exactly the source files below the roots. -/
theorem new_indexRoots_reflects_sourceFiles (extension : String) :
    ((new extension).indexRoots disk.source roots).2.Reflects
      ((new extension).sourceFiles disk roots) := by
  have given (path : Path) (member : .file path ∈ roots.flatMap disk.source.walk) :
      ∃ file, disk.file? path = some file ∧ disk.source.Gives path file := by
    obtain ⟨root, isRoot, walked⟩ := List.mem_flatMap.mp member
    obtain ⟨trail, named⟩ := (Path.exists_trail?_iff root).mpr (plain root isRoot)
    obtain ⟨modified, content, isFile, _, answers⟩ := tree.file_of_mem_walk named walked
    exact ⟨(modified, content), isFile, answers⟩
  have met (path : Path) : (if (new extension).meets (roots.flatMap disk.source.walk) path
      then disk.file? path else none) = (new extension).sourceFiles disk roots path := by
    rw [sourceFiles]
    cases isFile : disk.file? path with
    | none => rw [ite_self, ite_self]
    | some file => rw [← meets_walks tree plain (new extension) isFile]; rfl
  rw [← funext met]
  exact new_indexRoots_reflects (fun _ _ => disk.file?_congr) extension roots given

end Scan

section Changes

variable {indexer : Indexer} {disk after : Disk} {roots : List Path} {path : Path}

/-- A source file that was written below a root is one more to be known. -/
theorem sourceFiles_of_written {file : Timestamp × List UInt8}
    (files : ∀ other, after.file? other = if path == other then some file else disk.file? other)
    (isSource : indexer.isSource path) (below : ∃ root ∈ roots, path.isBelow root) :
    indexer.sourceFiles after roots = (indexer.sourceFiles disk roots).learn path file := by
  funext other
  rw [sourceFiles, Files.learn, sourceFiles, files]
  by_cases same : path == other
  · obtain ⟨root, isRoot, isBelow⟩ := below
    have otherBelow : roots.any (other.isBelow ·) :=
      List.any_eq_true.mpr ⟨root, isRoot, (Path.isBelow_congr same root).symm.trans isBelow⟩
    rw [if_pos same, if_pos same, ← isSource_congr indexer same, isSource, otherBelow]
    rfl
  · rw [if_neg same, if_neg same]

/-- Writing any other file changes nothing that is to be known. -/
theorem sourceFiles_of_ignored {file : Timestamp × List UInt8}
    (files : ∀ other, after.file? other = if path == other then some file else disk.file? other)
    (notSource : indexer.isSource path = false) :
    indexer.sourceFiles after roots = indexer.sourceFiles disk roots := by
  funext other
  rw [sourceFiles, sourceFiles, files]
  by_cases same : path == other
  · rw [← isSource_congr indexer same, notSource]
    rfl
  · rw [if_neg same]

/-- Nothing at or below a path that was removed is to be known. -/
theorem sourceFiles_of_removed
    (files : ∀ other, after.file? other =
      if other.startsWith path then none else disk.file? other) :
    indexer.sourceFiles after roots = (indexer.sourceFiles disk roots).drop path := by
  funext other
  rw [sourceFiles, Files.drop, sourceFiles, files]
  split
  · rfl
  · rw [ite_self]

end Changes

/-- A disk and the indexer that is told of its changes. -/
structure Watch where
  disk : Disk
  indexer : Indexer

namespace Watch

/-- One change to the disk, and the news of it to the indexer. -/
inductive Step (roots : List Path) : Watch → Watch → Prop
  | write {disk after : Disk} {indexer : Indexer} {path : Path} {content : List UInt8}
      {modified : Timestamp} (plain : path.IsPlain) (below : ∃ root ∈ roots, path.isBelow root)
      (stale : indexer.cache.isStale path modified)
      (done : disk.write path content modified = .ok after) :
      Step roots ⟨disk, indexer⟩ ⟨after, (indexer.reindex after.source path).2⟩
  | remove {disk after : Disk} {indexer : Indexer} {path : Path} (plain : path.IsPlain)
      (done : disk.remove path = .ok after) :
      Step roots ⟨disk, indexer⟩ ⟨after, (indexer.forget path).2⟩

/-- Any number of changes, each with its news before the next. -/
inductive Run (roots : List Path) : Watch → Watch → Prop
  | done (watch : Watch) : Run roots watch watch
  | step {before middle after : Watch} (first : Step roots before middle)
      (rest : Run roots middle after) : Run roots before after

/-- The disk is a tree, and the indexer knows the source files below the roots. -/
structure UpToDate (extension : String) (roots : List Path) (watch : Watch) : Prop where
  tree : watch.disk.IsTree
  sources : watch.indexer.extension = (new extension).extension
  reflects : watch.indexer.Reflects ((new extension).sourceFiles watch.disk roots)

/-- A new indexer is up to date after a scan. -/
theorem UpToDate.scanned (extension : String) {roots : List Path} {disk : Disk}
    (tree : disk.IsTree) (plain : ∀ root ∈ roots, root.IsPlain) :
    UpToDate extension roots ⟨disk, ((new extension).indexRoots disk.source roots).2⟩ where
  tree := tree
  sources :=
    @indexRoots_preserves (fun indexer => indexer.extension = (new extension).extension)
      (fun _ _ same _ => same) disk.source (new extension) roots rfl
  reflects := new_indexRoots_reflects_sourceFiles tree plain extension

section Steps

variable {extension : String} {roots : List Path} {disk after : Disk} {indexer : Indexer}
  (upToDate : UpToDate extension roots ⟨disk, indexer⟩)

include upToDate

/-- A path without a file is not remembered, so a file written there is read whatever its
time. -/
theorem UpToDate.isStale_of_free {path : Path} (free : disk.file? path = none)
    (modified : Timestamp) : indexer.cache.isStale path modified := by
  rw [upToDate.reflects.isStale_iff]
  intro content isKnown
  rw [sourceFiles, free, ite_self] at isKnown
  exact absurd isKnown.symm (Option.some_ne_none _)

/-- The news of a written file keeps an indexer up to date. A source file is read, because
its time is not the remembered one; another file is not among those to be known. -/
theorem UpToDate.write {path : Path} {content : List UInt8} {modified : Timestamp}
    (plain : path.IsPlain) (below : ∃ root ∈ roots, path.isBelow root)
    (stale : indexer.cache.isStale path modified)
    (done : disk.write path content modified = .ok after) :
    UpToDate extension roots ⟨after, (indexer.reindex after.source path).2⟩ := by
  obtain ⟨trail, named⟩ := (Path.exists_trail?_iff path).mpr plain
  obtain ⟨afterTree, gives, files⟩ := upToDate.tree.write named done
  have sameSource : (new extension).isSource path = indexer.isSource path := by
    rw [Indexer.isSource, Indexer.isSource, upToDate.sources]
  by_cases isSource : indexer.isSource path
  · have absorbed : (indexer.reindex after.source path).2 =
        indexer.absorb path modified (.ofFile path content) := by
      have read : after.source.Gives path (modified, content) := gives
      rw [reindex, if_pos isSource, indexFile_of_gives read, if_pos stale]
    rw [absorbed]
    refine ⟨afterTree, upToDate.sources, ?_⟩
    rw [sourceFiles_of_written files (sameSource.trans isSource) below]
    exact upToDate.reflects.absorb path (modified, content)
  · have ignored : (indexer.reindex after.source path).2 = indexer := by
      rw [reindex, if_neg isSource]
    rw [ignored]
    refine ⟨afterTree, upToDate.sources, ?_⟩
    rw [sourceFiles_of_ignored files (by rw [sameSource]; simpa using isSource)]
    exact upToDate.reflects

/-- The news of a removed path keeps an indexer up to date. -/
theorem UpToDate.remove {path : Path} (plain : path.IsPlain)
    (done : disk.remove path = .ok after) :
    UpToDate extension roots ⟨after, (indexer.forget path).2⟩ := by
  obtain ⟨trail, named⟩ := (Path.exists_trail?_iff path).mpr plain
  obtain ⟨afterTree, files⟩ := upToDate.tree.remove named done
  refine ⟨afterTree, upToDate.sources, ?_⟩
  rw [sourceFiles_of_removed files]
  exact upToDate.reflects.forget path

end Steps

/-- Each change with its news keeps an indexer up to date. -/
theorem Step.upToDate {extension : String} {roots : List Path} {before after : Watch}
    (step : Step roots before after) (upToDate : UpToDate extension roots before) :
    UpToDate extension roots after := by
  cases step with
  | write plain below stale done => exact upToDate.write plain below stale done
  | remove plain done => exact upToDate.remove plain done

/-- Any number of changes with their news keep an indexer up to date. -/
theorem Run.upToDate {extension : String} {roots : List Path} {before after : Watch}
    (run : Run roots before after) (upToDate : UpToDate extension roots before) :
    UpToDate extension roots after := by
  induction run with
  | done watch => exact upToDate
  | step first rest inductionHypothesis => exact inductionHypothesis (first.upToDate upToDate)

end Watch

/-- Knowing some files gives the scripts that they declare. -/
theorem Reflects.declares_iff {indexer : Indexer} {known : Files}
    (reflects : indexer.Reflects known) (name : String) (path : Path) (script : Script) :
    known.Declares name path script ↔ indexer.index.scripts.find? path = some script ∧
      Script.key script.name = Script.key name := by
  rw [Files.Declares, reflects.scripts]

/-- A name that one of the known files declares is answered with a script that one of them
declares under that name. -/
theorem Reflects.exists_script? {indexer : Indexer} {known : Files}
    (reflects : indexer.Reflects known) {name : String} {path : Path} {script : Script}
    (declares : known.Declares name path script) :
    ∃ other answer, known.Declares name other answer ∧
      indexer.index.script? name = some answer := by
  obtain ⟨found, sameKey⟩ := (reflects.declares_iff name path script).mp declares
  obtain ⟨other, answer, answerFound, answerKey, answered⟩ :=
    reflects.valid.exists_scriptAt?_of_find? found
  rw [sameKey] at answerKey answered
  exact ⟨other, answer, (reflects.declares_iff name other answer).mpr ⟨answerFound, answerKey⟩,
    answered⟩

/-- An indexer that scanned its roots and was told of every change since agrees with a new
indexer that scans the roots of the changed disk.

All files have the same symbols and the same scripts in both. A name that at most one of
the source files below the roots declares has the same answer in both; one that is declared
at all has an answer in both, and it is the script of a file that declares the name on the
changed disk. -/
theorem keeping_up_agrees_with_starting_over (extension : String) {roots : List Path}
    (plain : ∀ root ∈ roots, root.IsPlain) {disk : Disk} (tree : disk.IsTree) {last : Watch}
    (run : Watch.Run roots ⟨disk, ((new extension).indexRoots disk.source roots).2⟩ last) :
    let fresh := ((new extension).indexRoots last.disk.source roots).2
    let files := (new extension).sourceFiles last.disk roots
    (∀ path, last.indexer.index.symbols? path = fresh.index.symbols? path) ∧
    (∀ path, last.indexer.index.scripts.find? path = fresh.index.scripts.find? path) ∧
    (∀ name, (∀ first second firstScript secondScript, files.Declares name first firstScript →
        files.Declares name second secondScript → first == second) →
      last.indexer.index.script? name = fresh.index.script? name) ∧
    (∀ name path script, files.Declares name path script →
      (∃ other answer, files.Declares name other answer ∧
        last.indexer.index.script? name = some answer) ∧
      ∃ other answer, files.Declares name other answer ∧
        fresh.index.script? name = some answer) := by
  intro fresh files
  have kept := run.upToDate (Watch.UpToDate.scanned extension tree plain)
  have reflects : last.indexer.Reflects files := kept.reflects
  have freshReflects : fresh.Reflects files :=
    new_indexRoots_reflects_sourceFiles kept.tree plain extension
  have sameScripts (path : Path) :
      last.indexer.index.scripts.find? path = fresh.index.scripts.find? path :=
    (reflects.scripts path).trans (freshReflects.scripts path).symm
  refine ⟨?_, sameScripts, ?_, ?_⟩
  · intro path
    exact (reflects.symbols path).trans (freshReflects.symbols path).symm
  · intro name alone
    refine reflects.valid.scriptAt?_eq_of_scripts freshReflects.valid sameScripts ?_
    intro first second firstScript secondScript firstFound firstKey secondFound secondKey
    exact alone first second firstScript secondScript
      ((reflects.declares_iff name first firstScript).mpr ⟨firstFound, firstKey⟩)
      ((reflects.declares_iff name second secondScript).mpr ⟨secondFound, secondKey⟩)
  · intro name path script declares
    exact ⟨reflects.exists_script? declares, freshReflects.exists_script? declares⟩

/-- Two files of one script are written, and the directory of the second is removed. -/
theorem keeping_up_with_two_writes_and_a_removal :
    let roots : List Path := [⟨"/r"⟩]
    let text := "ScriptName Alpha".toUTF8.toList
    let once := (Disk.empty.set ["r"] .directory).set ["a.psc", "r"] (.file text ⟨1⟩)
    let twice := (once.set ["old", "r"] .directory).set ["b.psc", "old", "r"] (.file text ⟨1⟩)
    ∃ last, Watch.Run roots ⟨.empty, ((new "psc").indexRoots Disk.empty.source roots).2⟩ last ∧
      last.disk = twice.clear ["old", "r"] ∧
      ∀ path, last.indexer.index.symbols? path =
        ((new "psc").indexRoots last.disk.source roots).2.index.symbols? path := by
  intro roots text once twice
  have plain : ∀ root ∈ roots, root.IsPlain := by
    intro root member
    obtain rfl := List.mem_singleton.mp member
    exact ⟨by decide, by decide⟩
  have writtenOnce : Disk.empty.write ⟨"/r/a.psc"⟩ text ⟨1⟩ = .ok once := by cbv
  have writtenTwice : once.write ⟨"/r/old/b.psc"⟩ text ⟨1⟩ = .ok twice := by cbv
  have removed : twice.remove ⟨"/r/old"⟩ = .ok (twice.clear ["old", "r"]) := by cbv
  have unwritten : Disk.empty.file? ⟨"/r/a.psc"⟩ = none := by cbv
  have writtenOther : once.file? ⟨"/r/old/b.psc"⟩ = none := by cbv
  have isRoot : ⟨"/r"⟩ ∈ roots := List.mem_singleton_self _
  have scanned := Watch.UpToDate.scanned "psc" Disk.empty_isTree plain
  have first := Watch.Step.write ⟨by decide, by decide⟩ ⟨⟨"/r"⟩, isRoot, by decide⟩
    (scanned.isStale_of_free unwritten ⟨1⟩) writtenOnce
  have second := Watch.Step.write ⟨by decide, by decide⟩ ⟨⟨"/r"⟩, isRoot, by decide⟩
    ((first.upToDate scanned).isStale_of_free writtenOther ⟨1⟩) writtenTwice
  have run := Watch.Run.step first (.step second
    (.step (.remove ⟨by decide, by decide⟩ removed) (.done _)))
  exact ⟨_, run, rfl, (keeping_up_agrees_with_starting_over "psc" plain Disk.empty_isTree run).1⟩

end Indexer
end Papyrus
