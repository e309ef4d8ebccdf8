import Papyrus.Proofs.Disk.Spelling
import Papyrus.Proofs.Indexer.Action
import Papyrus.Proofs.Indexer.Reflection

/-!
# A full scan is exact

A new indexer scans files that do not change. Walks from several roots may come across a file
more than once, under one spelling or several. The file is read where it is met first; from
then on it counts as up to date, so that nothing is read twice and no file changes its place
among those that declare a script. What the indexer has in the end is told by the source files
that can be read, in the order in which they were met first: the symbols and the script of each
of them, and for each script name the script of the last one.

How a file is spelled must not matter for this, or one file could be read under one spelling
and not under another. On a disk it does not matter for the paths that walks come across.
-/
namespace Papyrus

namespace FileSource

/-- The time and the content of a file, where a source gives both. -/
def file? (source : FileSource) (path : Path) : Option (Timestamp × List UInt8) :=
  match source.modified path, source.read path with
  | .ok modified, .ok content => some (modified, content)
  | _, _ => none

/-- What a file declares, where a source gives it. -/
def extraction? (source : FileSource) (path : Path) : Option Extraction :=
  (source.file? path).map fun file => .ofFile path file.2

/-- The script of a file, where a source gives it and it declares one. -/
def script? (source : FileSource) (path : Path) : Option Script :=
  (source.extraction? path).bind (·.script)

/-- The files among some paths that a source gives, each of them once, in the order in which
they come first. -/
def given (source : FileSource) (paths : List Path) : List Path :=
  (paths.filter fun path => (source.file? path).isSome).eraseDups

/-- What there is to know of some files, under any of their spellings. -/
def known (source : FileSource) (paths : List Path) : Files :=
  fun path => (paths.find? (· == path)).bind source.file?

/-- How one of some files is spelled makes no difference to what a source gives. -/
def Consistent (source : FileSource) (paths : List Path) : Prop :=
  ∀ left ∈ paths, ∀ right ∈ paths, left == right → source.file? left = source.file? right

variable {source : FileSource} {paths : List Path} {path : Path}

/-- A file is at hand when a source gives its time and its content. -/
theorem file?_eq_some_iff {file : Timestamp × List UInt8} :
    source.file? path = some file ↔ source.Gives path file := by
  unfold file? Gives
  cases source.modified path <;> cases source.read path <;> simp [Prod.ext_iff]

/-- One more path brings one more file if the source gives it and it did not come before. -/
theorem given_concat (source : FileSource) (paths : List Path) (path : Path) :
    source.given (paths ++ [path]) =
      if (source.file? path).isSome ∧ (source.given paths).contains path = false then
        source.given paths ++ [path]
      else source.given paths := by
  rw [given, given, List.filter_append, Path.contains_eraseDups]
  by_cases isGiven : (source.file? path).isSome
  · have kept : [path].filter (fun path => (source.file? path).isSome) = [path] := by simp [isGiven]
    rw [kept, Path.eraseDups_concat]
    by_cases before : (paths.filter fun path => (source.file? path).isSome).contains path <;>
      simp [isGiven, before]
  · simp [isGiven]

/-- The files that a source gives among some paths are among them, and it gives them. -/
theorem of_mem_given (member : path ∈ source.given paths) :
    path ∈ paths ∧ (source.file? path).isSome := by
  induction paths using List.reverseRecOn with
  | nil => exact absurd member List.not_mem_nil
  | append_singleton paths last inductionHypothesis =>
    rw [given_concat] at member
    split at member
    next isNew =>
      rcases List.mem_append.mp member with earlier | isLast
      · exact (inductionHypothesis earlier).imp_left (List.mem_append_left _)
      · rw [List.mem_singleton.mp isLast]
        exact ⟨List.mem_append_right _ (List.mem_singleton_self last), isNew.1⟩
    next => exact (inductionHypothesis member).imp_left (List.mem_append_left _)

/-- A path is among the files that a source gives when it is a spelling of one of them. -/
theorem contains_given_iff (source : FileSource) (paths : List Path) (path : Path) :
    (source.given paths).contains path ↔
      ∃ file ∈ paths, file == path ∧ (source.file? file).isSome := by
  rw [given, Path.contains_eraseDups, List.contains_iff_exists_mem_beq]
  constructor
  · rintro ⟨file, member, same⟩
    obtain ⟨listed, isGiven⟩ := List.mem_filter.mp member
    exact ⟨file, listed, BEq.symm same, isGiven⟩
  · rintro ⟨file, listed, same, isGiven⟩
    exact ⟨file, List.mem_filter.mpr ⟨listed, isGiven⟩, BEq.symm same⟩

/-- Equal paths are known alike. -/
theorem known_congr (source : FileSource) (paths : List Path) {left right : Path}
    (same : left == right) : source.known paths left = source.known paths right := by
  simp only [known, BEq.congr_right same]

/-- Nothing is known of a path that is no spelling of one of the files. -/
theorem known_eq_none (absent : paths.contains path = false) : source.known paths path = none := by
  rw [known, (Path.find?_eq_none_iff paths path).mpr absent, Option.bind_none]

/-- With one more file, that file is known and the others are known as before. -/
theorem known_concat (absent : paths.contains path = false) {file : Timestamp × List UInt8}
    (isFile : source.file? path = some file) :
    source.known (paths ++ [path]) = (source.known paths).learn path file := by
  funext other
  rw [Files.learn]
  split
  next same =>
    rw [← known_congr source _ same, known, List.find?_append,
      (Path.find?_eq_none_iff paths path).mpr absent, Option.none_or]
    simp [isFile]
  next differs => simp [known, List.find?_append, differs]

/-- All paths that were met are known as the source gives them, whether it gives them or not. -/
theorem Consistent.known_given (consistent : source.Consistent paths) (member : path ∈ paths) :
    source.known (source.given paths) path = source.file? path := by
  rw [known]
  cases met : (source.given paths).find? (· == path) with
  | none =>
    rw [Path.find?_eq_none_iff, ← Bool.not_eq_true, contains_given_iff] at met
    rw [Option.bind_none, eq_comm, ← Option.not_isSome_iff_eq_none]
    exact fun isGiven => met ⟨path, member, BEq.rfl, isGiven⟩
  | some other =>
    have same : other == path := by simpa using List.find?_some met
    rw [Option.bind_some]
    exact consistent other (of_mem_given (List.mem_of_find?_eq_some met)).1 path member same

end FileSource

namespace Indexer

/-- The state of a scan of files that do not change, after some source files were met. -/
structure Scanned (source : FileSource) (met : List Path) (state : ScanStats × Indexer) : Prop where
  reflects : state.2.Reflects (source.known (source.given met))
  declaring : ∀ key, state.2.index.declaring key = (source.given met).filter fun path =>
    (source.script? path).any fun script => Script.key script.name == key
  files : state.2.index.fileCount = (source.given met).length
  parses : state.2.parses = (source.given met).length
  parsed : state.1.parsed = (source.given met).length
  indexed : state.1.indexed = met.length

namespace Scanned

variable {source : FileSource} {met : List Path} {state : ScanStats × Indexer} {path : Path}

/-- Nothing has been met yet. -/
theorem start (source : FileSource) (extension : String) :
    Scanned source [] ({}, new extension) where
  reflects := new_reflects extension
  declaring _ := rfl
  files := rfl
  parses := rfl
  parsed := rfl
  indexed := rfl

/-- A file that leaves the stores as they are and is not new changes the count of files met
alone. -/
theorem pass (scanned : Scanned source met state)
    (unchanged : source.given (met ++ [path]) = source.given met) {stats : ScanStats}
    (parsed : stats.parsed = state.1.parsed) (indexed : stats.indexed = state.1.indexed + 1) :
    Scanned source (met ++ [path]) (stats, state.2) where
  reflects := unchanged ▸ scanned.reflects
  declaring key := unchanged ▸ scanned.declaring key
  files := unchanged ▸ scanned.files
  parses := unchanged ▸ scanned.parses
  parsed := by rw [parsed, unchanged, scanned.parsed]
  indexed := by rw [indexed, scanned.indexed, List.length_append, List.length_singleton]

/-- A file that is new is read and comes last. -/
theorem absorb (scanned : Scanned source met state) {file : Timestamp × List UInt8}
    (isFile : source.file? path = some file)
    (isNew : (source.given met).contains path = false) {stats : ScanStats}
    (parsed : stats.parsed = state.1.parsed + 1) (indexed : stats.indexed = state.1.indexed + 1) :
    Scanned source (met ++ [path]) (stats, state.2.absorb path file.1 (.ofFile path file.2)) := by
  have longer : source.given (met ++ [path]) = source.given met ++ [path] := by
    rw [FileSource.given_concat, if_pos ⟨by rw [isFile]; rfl, isNew⟩]
  have unknown : source.known (source.given met) path = none := FileSource.known_eq_none isNew
  have script : source.script? path = (Extraction.ofFile path file.2).script := by
    rw [FileSource.script?, FileSource.extraction?, isFile]
    rfl
  constructor
  · rw [longer, FileSource.known_concat isNew isFile]
    exact scanned.reflects.absorb path file
  · intro key
    have notDeclaring : (state.2.index.declaring key).contains path = false := by
      rw [← Bool.not_eq_true, scanned.reflects.valid.declared]
      rintro ⟨script, found, _⟩
      rw [scanned.reflects.scripts, unknown] at found
      exact absurd found.symm (Option.some_ne_none script)
    rw [longer, List.filter_append, ← scanned.declaring key, Indexer.absorb,
      scanned.reflects.valid.declaring_put, Path.filter_ne_of_not_contains _ path notDeclaring,
      List.filter_singleton, script, cond_eq_ite]
  · have missing : state.2.index.symbols? path = none := by
      rw [scanned.reflects.symbols, unknown, Option.map_none]
    simp only [Indexer.absorb, Index.fileCount_put, missing, Option.isSome_none, longer,
      List.length_append, List.length_singleton, scanned.files]
    rfl
  · simp only [Indexer.absorb, longer, List.length_append, List.length_singleton, scanned.parses]
  · rw [parsed, longer, scanned.parsed, List.length_append, List.length_singleton]
  · rw [indexed, scanned.indexed, List.length_append, List.length_singleton]

/-- A file that cannot be read is met and nothing else. Its time may still be at hand and be
the one in the cache; then the file counts as up to date, which changes nothing either. -/
theorem meet_unreadable (scanned : Scanned source met state) (isSource : state.2.isSource path)
    (unreadable : source.file? path = none) :
    Scanned source (met ++ [path]) (scanVisit source state (.file path)) := by
  have unchanged : source.given (met ++ [path]) = source.given met := by
    rw [FileSource.given_concat, if_neg (by simp [unreadable])]
  simp only [scanVisit, isSource, if_true]
  cases done : state.2.indexFile source path with
  | error error => exact scanned.pass unchanged rfl rfl
  | ok result =>
    obtain ⟨modified, timed, ⟨_, rfl⟩ | ⟨content, _, opened, _⟩⟩ := indexFile_cases done
    · exact scanned.pass unchanged rfl rfl
    · have gives : source.Gives path (modified, content) := ⟨timed, opened⟩
      rw [← FileSource.file?_eq_some_iff, unreadable] at gives
      exact absurd gives.symm (Option.some_ne_none _)

/-- A file that can be read is read when it is met first, and is up to date when it is met
again. -/
theorem meet_readable (scanned : Scanned source met state) (isSource : state.2.isSource path)
    (consistent : source.Consistent (met ++ [path])) {file : Timestamp × List UInt8}
    (isFile : source.file? path = some file) :
    Scanned source (met ++ [path]) (scanVisit source state (.file path)) := by
  have reached := indexFile_of_gives (FileSource.file?_eq_some_iff.mp isFile) state.2
  have stale_iff := scanned.reflects.isStale_iff path file.1
  by_cases isNew : (source.given met).contains path = false
  · have stale : state.2.cache.isStale path file.1 := by
      rw [stale_iff, FileSource.known_eq_none isNew]
      exact fun _ => (Option.some_ne_none _).symm
    rw [if_pos stale] at reached
    simp only [scanVisit, isSource, if_true, reached]
    exact scanned.absorb isFile isNew rfl rfl
  · have unchanged : source.given (met ++ [path]) = source.given met := by
      rw [FileSource.given_concat, if_neg (fun both => isNew both.2)]
    have isKnown : source.known (source.given met) path = some file := by
      rw [← unchanged, consistent.known_given (by simp), isFile]
    have fresh : ¬ state.2.cache.isStale path file.1 := by
      rw [stale_iff]
      exact fun unknown => unknown file.2 isKnown
    rw [if_neg fresh] at reached
    simp only [scanVisit, isSource, if_true, reached]
    exact scanned.pass unchanged rfl rfl

end Scanned

/-- After walks, a new indexer has what the source files that it met give it. -/
theorem scanned_scanVisits {source : FileSource} {extension : String} {visits : List Visit}
    (consistent : source.Consistent ((new extension).encounters visits)) :
    Scanned source ((new extension).encounters visits)
      (scanVisits source ({}, new extension) visits) := by
  induction visits using List.reverseRecOn with
  | nil => exact .start source extension
  | append_singleton visits visit inductionHypothesis =>
    have split : (new extension).encounters (visits ++ [visit]) =
        (new extension).encounters visits ++ ((new extension).sourceFile? visit).toList := by
      rw [encounters, List.filterMap_append, ← encounters]
      cases met : (new extension).sourceFile? visit <;> simp [met]
    rw [split] at consistent ⊢
    have before := inductionHypothesis fun left leftMet right rightMet =>
      consistent left (List.mem_append_left _ leftMet) right (List.mem_append_left _ rightMet)
    have settings :
        SameSettings (scanVisits source ({}, new extension) visits).2 (new extension) := by
      rw [scanVisits_snd]
      exact carryOut_sameSettings _ _
    rw [scanVisits, List.foldl_append, List.foldl_cons, List.foldl_nil, ← scanVisits]
    cases visit with
    | failure path =>
      rw [sourceFile?, Option.toList_none, List.append_nil]
      exact ⟨before.reflects, before.declaring, before.files, before.parses, before.parsed,
        before.indexed⟩
    | directory path =>
      rw [sourceFile?, Option.toList_none, List.append_nil]
      exact before
    | file path =>
      by_cases isSource : (new extension).isSource path
      · rw [sourceFile?, if_pos isSource, Option.toList_some] at consistent ⊢
        rw [← settings.isSource_eq] at isSource
        cases given : source.file? path with
        | none => exact before.meet_unreadable isSource given
        | some file => exact before.meet_readable isSource consistent given
      · rw [sourceFile?, if_neg isSource, Option.toList_none, List.append_nil]
        rw [← settings.isSource_eq] at isSource
        rw [scanVisit, if_neg isSource]
        exact before

section Answers

variable {source : FileSource} {met : List Path} {state : ScanStats × Indexer}
  (scanned : Scanned source met state) (consistent : source.Consistent met)

include scanned consistent

/-- Every file that was met has the symbols and the script that it declares, or none. -/
theorem Scanned.answers {path : Path} (isMet : path ∈ met) :
    state.2.index.symbols? path = (source.extraction? path).map (·.symbols) ∧
      state.2.index.scripts.find? path = source.script? path := by
  have isKnown := consistent.known_given isMet
  rw [scanned.reflects.symbols, scanned.reflects.scripts, isKnown, FileSource.script?,
    FileSource.extraction?]
  cases source.file? path <;> exact ⟨rfl, rfl⟩

omit consistent in
/-- The files that are indexed are those that were met and could be read. -/
theorem Scanned.isIndexed_iff (path : Path) :
    (∃ symbols, state.2.index.symbols? path = some symbols) ↔
      ∃ file ∈ met, file == path ∧ (source.file? file).isSome := by
  rw [← FileSource.contains_given_iff, ← Option.isSome_iff_exists, scanned.reflects.symbols,
    Option.isSome_map, FileSource.known]
  cases found : (source.given met).find? (· == path) with
  | none =>
    rw [Path.find?_eq_none_iff] at found
    rw [found]
    exact Iff.rfl
  | some other =>
    have isGiven := (FileSource.of_mem_given (List.mem_of_find?_eq_some found)).2
    have isMet : (source.given met).contains path := by
      by_contra absent
      rw [Bool.not_eq_true, ← Path.find?_eq_none_iff, found] at absent
      exact Option.some_ne_none other absent
    exact iff_of_true isGiven isMet

/-- A script name is answered with the last script of that name, in the order in which the
files were met first. -/
theorem Scanned.script?_eq (name : String) :
    state.2.index.script? name = (((source.given met).filterMap source.script?).filter
      fun script => Script.key script.name == Script.key name).getLast? := by
  have declared : ∀ path ∈ source.given met,
      state.2.index.scripts.find? path = source.script? path := fun path member =>
    (scanned.answers consistent (FileSource.of_mem_given member).1).2
  rw [Index.script?, Index.scriptAt?_eq, scanned.declaring]
  generalize source.given met = found at declared
  -- The last file counts if it declares the name; otherwise both sides pass over it.
  induction found using List.reverseRecOn with
  | nil => rfl
  | append_singleton found last inductionHypothesis =>
    have earlier := inductionHypothesis fun path member =>
      declared path (List.mem_append_left _ member)
    have lastDeclared := declared last (List.mem_append_right _ (List.mem_singleton_self last))
    rw [List.filter_append, List.filterMap_append, List.filter_append]
    cases declares : source.script? last with
    | none => simpa [declares] using earlier
    | some script =>
      rw [declares] at lastDeclared
      by_cases named : Script.key script.name = Script.key name
      · simp [declares, named, lastDeclared]
      · simpa [declares, named] using earlier

end Answers

end Indexer

/-- A source that shows a disk: its walks are those of the disk, and the time and the content
of a file depend on the place that a path leads to. Any of them may be out of reach. -/
structure FileSource.Shows (source : FileSource) (disk : Disk) : Prop where
  walk : source.walk = disk.walk
  modified : ∃ time : Trail → Except FileError Timestamp, ∀ path,
    source.modified path = disk.locate .target path >>= time
  read : ∃ content : Trail → Except FileError (List UInt8), ∀ path,
    source.read path = disk.locate .target path >>= content

/-- The files of a disk show the disk: what stands at a place gives the time and the content. -/
theorem Disk.source_shows (disk : Disk) : disk.source.Shows disk where
  walk := rfl
  modified := ⟨_, fun path => bind_assoc (disk.locate .target path) _ _⟩
  read := ⟨_, fun path => bind_assoc (disk.locate .target path) _ _⟩

/-- A source that shows a disk gives the same file under all spellings that walks come across. -/
theorem FileSource.Shows.consistent {source : FileSource} {disk : Disk} (shows : source.Shows disk)
    (proper : disk.HasProperNames) (indexer : Indexer) (roots : List Path) :
    source.Consistent (indexer.encounters (roots.flatMap disk.walk)) := by
  have isWalked {path : Path} (met : path ∈ indexer.encounters (roots.flatMap disk.walk)) :
      ∃ root, .file path ∈ disk.walk root := by
    obtain ⟨visit, member, isFile⟩ := List.mem_filterMap.mp met
    obtain ⟨root, _, walked⟩ := List.mem_flatMap.mp member
    refine ⟨root, ?_⟩
    cases visit with
    | file other =>
      rw [Indexer.sourceFile?] at isFile
      split at isFile
      · exact Option.some.inj isFile ▸ walked
      · exact absurd isFile.symm (Option.some_ne_none path)
    | directory other => exact absurd isFile.symm (Option.some_ne_none path)
    | failure other => exact absurd isFile.symm (Option.some_ne_none path)
  intro left leftMet right rightMet same
  obtain ⟨leftRoot, leftWalked⟩ := isWalked leftMet
  obtain ⟨rightRoot, rightWalked⟩ := isWalked rightMet
  have samePlace := proper.locate_congr_of_mem_walk leftWalked rightWalked same .target
  obtain ⟨time, modified⟩ := shows.modified
  obtain ⟨content, read⟩ := shows.read
  simp only [file?, modified, read, samePlace]

namespace Indexer

/-- A full scan of files that do not change is exact.

Exactly those source files are indexed that walks from the roots came across and that could be
read, each with the symbols and the script that it declares. Of the files that declare a script
name, the one whose first encounter came last answers for it. A file is read once, however
often it is met. -/
theorem full_scan_is_exact {disk : Disk} (proper : disk.HasProperNames) {source : FileSource}
    (shows : source.Shows disk) (extension : String) (roots : List Path) :
    let met := (new extension).encounters ((roots.filter disk.isDirectory).flatMap disk.walk)
    let found := source.given met
    let scan := (new extension).indexRoots source roots
    (∀ path, (∃ symbols, scan.2.index.symbols? path = some symbols) ↔
      ∃ file ∈ met, file == path ∧ (source.file? file).isSome) ∧
    (∀ path ∈ met, scan.2.index.symbols? path = (source.extraction? path).map (·.symbols) ∧
      scan.2.index.scripts.find? path = source.script? path) ∧
    (∀ name, scan.2.index.script? name = ((found.filterMap source.script?).filter
      fun script => Script.key script.name == Script.key name).getLast?) ∧
    ∃ stats, scan.1 = some stats ∧ stats.indexed = met.length ∧ stats.parsed = found.length ∧
      scan.2.index.fileCount = found.length ∧ scan.2.parses = found.length := by
  intro met found scan
  have isMet : met = (new extension).encounters (roots.flatMap source.walk) := by
    rw [shows.walk, ← Disk.flatMap_walk_filter]
  have consistent : source.Consistent met := by
    rw [isMet, shows.walk]
    exact shows.consistent proper (new extension) roots
  have scanned : Scanned source met
      (scanVisits source ({}, new extension) (roots.flatMap source.walk)) := by
    rw [isMet] at consistent ⊢
    exact scanned_scanVisits consistent
  exact ⟨scanned.isIndexed_iff, fun _ => scanned.answers consistent, scanned.script?_eq consistent,
    _, rfl, scanned.indexed, scanned.parsed, scanned.files, scanned.parses⟩

section Nested

/-- A directory with a file, and with a directory that has a file. The two files are named
alike up to letter case. -/
def nested : Disk :=
  (((Disk.empty.set ["r"] .directory).set ["S.psc", "r"] (.file [] ⟨1⟩)).set
    ["sub", "r"] .directory).set ["s.psc", "sub", "r"] (.file [] ⟨2⟩)

/-- The names of both files and of both directories are proper. -/
theorem nested_hasProperNames : nested.HasProperNames := by
  intro name above node standing
  have listed := Disk.mem_places_of_node? standing
  have places :
      nested.places = [[], ["r"], ["S.psc", "r"], ["sub", "r"], ["s.psc", "sub", "r"]] := rfl
  simp only [places, List.mem_cons, List.cons.injEq, reduceCtorEq, false_or, List.not_mem_nil,
    or_false] at listed
  rcases listed with ⟨rfl, _⟩ | ⟨rfl, _⟩ | ⟨rfl, _⟩ | ⟨rfl, _⟩ <;> constructor <;> decide

/-- The walk from the inner directory comes first, so its file is met before the other one,
and then once more under another spelling. -/
theorem encounters_nested :
    (new "psc").encounters (([⟨"/r/sub"⟩, ⟨"/r/."⟩, ⟨"/r/gone"⟩] : List Path).filter
      nested.isDirectory |>.flatMap nested.walk) =
      [⟨"/r/sub/s.psc"⟩, ⟨"/r/./S.psc"⟩, ⟨"/r/./sub/s.psc"⟩] := by
  have innerEntries : nested.children ["sub", "r"] = [("s.psc", .file [] ⟨2⟩)] := by cbv
  have outerEntries : nested.children ["r"] = [("S.psc", .file [] ⟨1⟩), ("sub", .directory)] := by
    cbv
  have inner (entered : List Trail) (path : Path) :
      nested.visitsBelow entered ["sub", "r"] path = [.file (path.join ⟨"s.psc"⟩)] := by
    rw [Disk.visitsBelow, List.attach_congr innerEntries]
    simp
  have outer (entered : List Trail) (path : Path) :
      nested.visitsBelow entered ["r"] path = [.file (path.join ⟨"S.psc"⟩),
        .directory (path.join ⟨"sub"⟩), .file ((path.join ⟨"sub"⟩).join ⟨"s.psc"⟩)] := by
    rw [Disk.visitsBelow, List.attach_congr outerEntries]
    simp [inner]
  have innerWalk : nested.walk ⟨"/r/sub"⟩ = [.directory ⟨"/r/sub"⟩, .file ⟨"/r/sub/s.psc"⟩] := by
    have led : nested.locate .target ⟨"/r/sub"⟩ = .ok ["sub", "r"] := by cbv
    have standing : nested.node? ["sub", "r"] = some .directory := rfl
    simp only [Disk.walk, led, standing, inner]
    rfl
  have outerWalk : nested.walk ⟨"/r/."⟩ = [.directory ⟨"/r/."⟩, .file ⟨"/r/./S.psc"⟩,
      .directory ⟨"/r/./sub"⟩, .file ⟨"/r/./sub/s.psc"⟩] := by
    have led : nested.locate .target ⟨"/r/."⟩ = .ok ["r"] := by cbv
    have standing : nested.node? ["r"] = some .directory := rfl
    simp only [Disk.walk, led, standing, outer]
    rfl
  have noWalk : nested.walk ⟨"/r/gone"⟩ = [] := Disk.walk_eq_nil (by cbv)
  rw [Disk.flatMap_walk_filter]
  simp only [List.flatMap_cons, innerWalk, outerWalk, noWalk, List.flatMap_nil]
  rfl

/-- The inner file is met twice and read once. It was met before the outer file, so that the
outer file answers for the script that both declare. -/
theorem full_scan_of_overlapping_roots :
    let scan := (new "psc").indexRoots nested.source [⟨"/r/sub"⟩, ⟨"/r/."⟩, ⟨"/r/gone"⟩]
    nested.HasProperNames ∧ nested.source.Shows nested ∧
      (scan.2.index.script? "s").map (·.name) = some "S" ∧
      ∃ stats, scan.1 = some stats ∧ stats.indexed = 3 ∧ stats.parsed = 2 ∧
        scan.2.index.fileCount = 2 ∧ scan.2.parses = 2 := by
  intro scan
  have inner : nested.source.file? ⟨"/r/sub/s.psc"⟩ = some (⟨2⟩, []) := by cbv
  have outer : nested.source.file? ⟨"/r/./S.psc"⟩ = some (⟨1⟩, []) := by cbv
  have again : nested.source.file? ⟨"/r/./sub/s.psc"⟩ = some (⟨2⟩, []) := by cbv
  have found : nested.source.given [⟨"/r/sub/s.psc"⟩, ⟨"/r/./S.psc"⟩, ⟨"/r/./sub/s.psc"⟩] =
      [⟨"/r/sub/s.psc"⟩, ⟨"/r/./S.psc"⟩] := by
    simp only [FileSource.given, List.filter_cons, inner, outer, again, Option.isSome_some, if_true,
      List.filter_nil]
    rfl
  have innerScript : nested.source.script? ⟨"/r/sub/s.psc"⟩ = some ⟨"s", none, [], [], []⟩ := by
    rw [FileSource.script?, FileSource.extraction?, inner]
    cbv
  have outerScript : nested.source.script? ⟨"/r/./S.psc"⟩ = some ⟨"S", none, [], [], []⟩ := by
    rw [FileSource.script?, FileSource.extraction?, outer]
    cbv
  obtain ⟨_, _, answered, counted⟩ := full_scan_is_exact nested_hasProperNames nested.source_shows
    "psc" [⟨"/r/sub"⟩, ⟨"/r/."⟩, ⟨"/r/gone"⟩]
  rw [encounters_nested, found] at counted
  refine ⟨nested_hasProperNames, nested.source_shows, ?_, counted⟩
  rw [answered "s", encounters_nested, found, List.filterMap_cons_some innerScript,
    List.filterMap_cons_some outerScript]
  rfl

end Nested

end Indexer
end Papyrus
