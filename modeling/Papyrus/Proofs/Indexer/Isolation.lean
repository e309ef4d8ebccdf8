import Papyrus.Proofs.Indexer.Action
import Papyrus.Proofs.Indexer.Update

/-!
# Failures are isolated

A scan comes across source files, other things, and places where the walk itself fails. A
source file can fail at two moments: when its time is taken, and when it is read because the
cache remembers another time. Whatever fails is counted and changes nothing else, so that a
scan ends as if what failed had not been there.

The files may change while a scan goes on. Each thing that a walk came across is therefore
taken together with the files as they are found at that moment; a file that fails when it is
met first may be read when it is met again.
-/
namespace Papyrus.Indexer

/-- Something that a walk came across, with the files as they are found at that moment. -/
structure Encounter where
  source : FileSource
  visit : Visit

/-- What becomes of something that a walk came across. -/
inductive Outcome where
  /-- It is no source file. -/
  | passedOver
  /-- The walk failed there. -/
  | refused
  /-- The time or the content of a source file could not be had. -/
  | failed
  /-- A source file has the time that the cache remembers. -/
  | cached
  /-- A source file was read. -/
  | parsed
  deriving DecidableEq, Repr

/-- What becomes of a source file. -/
def fileOutcome (source : FileSource) (indexer : Indexer) (path : Path) : Outcome :=
  match source.modified path with
  | .error _ => .failed
  | .ok modified =>
    if indexer.cache.isStale path modified then
      match source.read path with
      | .error _ => .failed
      | .ok _ => .parsed
    else .cached

/-- What becomes of something that a walk came across. -/
def outcome (indexer : Indexer) (encounter : Encounter) : Outcome :=
  match encounter.visit with
  | .failure _ => .refused
  | .directory _ => .passedOver
  | .file path =>
    if indexer.isSource path then fileOutcome encounter.source indexer path else .passedOver

/-- Deal with one thing that a walk came across. -/
def scanEncounter (state : ScanStats × Indexer) (encounter : Encounter) : ScanStats × Indexer :=
  scanVisit encounter.source state encounter.visit

/-- Deal with everything that walks came across. -/
def scanEncounters (state : ScanStats × Indexer) (encounters : List Encounter) :
    ScanStats × Indexer :=
  encounters.foldl scanEncounter state

/-- What became of everything that walks came across, each thing judged when its turn came. -/
def log (indexer : Indexer) : List Encounter → List (Encounter × Outcome)
  | [] => []
  | encounter :: rest =>
    (encounter, indexer.outcome encounter) ::
      (scanEncounter ({}, indexer) encounter).2.log rest

/-- Whether something failed, be it the walk or a file. -/
def Outcome.isFailure : Outcome → Bool
  | .refused | .failed => true
  | .passedOver | .cached | .parsed => false

/-- What a scan reports with one more outcome. -/
def Outcome.addTo (stats : ScanStats) : Outcome → ScanStats
  | .passedOver => stats
  | .refused => { stats with errors := stats.errors + 1 }
  | .failed => { stats with indexed := stats.indexed + 1, errors := stats.errors + 1 }
  | .cached => { stats with indexed := stats.indexed + 1, cached := stats.cached + 1 }
  | .parsed => { stats with indexed := stats.indexed + 1, parsed := stats.parsed + 1 }

/-- What a scan reports of some outcomes. -/
def tally (outcomes : List Outcome) : ScanStats where
  indexed := outcomes.count .parsed + outcomes.count .cached + outcomes.count .failed
  parsed := outcomes.count .parsed
  cached := outcomes.count .cached
  errors := outcomes.count .refused + outcomes.count .failed

section File

variable (source : FileSource) (indexer : Indexer) (path : Path)

/-- Bringing a file up to date gives what its outcome says. -/
theorem indexFile_of_outcome :
    match fileOutcome source indexer path with
    | .failed => ∃ error, indexer.indexFile source path = .error error
    | .cached => indexer.indexFile source path = .ok (false, indexer)
    | .parsed => ∃ after, indexer.indexFile source path = .ok (true, after) ∧
        after.parses = indexer.parses + 1
    | .passedOver | .refused => False := by
  unfold fileOutcome indexFile
  cases source.modified path with
  | error error => exact ⟨error, rfl⟩
  | ok modified =>
    by_cases stale : indexer.cache.isStale path modified
    · simp only [if_pos stale, bind, Except.bind]
      cases source.read path with
      | error error => exact ⟨error, rfl⟩
      | ok content => exact ⟨_, rfl, rfl⟩
    · simp only [if_neg stale, bind, Except.bind]
      rfl

variable {source indexer path}

/-- A file that fails is reported as not read, and nothing changes. -/
theorem reindex_of_failed (failed : fileOutcome source indexer path = .failed) :
    indexer.reindex source path = (false, indexer) := by
  have given := indexFile_of_outcome source indexer path
  rw [failed] at given
  obtain ⟨error, refused⟩ := given
  unfold reindex
  split
  · rw [refused]
  · rfl

/-- A file that fails changes nothing at any step on the way: both moments at which it can
fail come before the first write. -/
theorem advance_of_failed (failed : fileOutcome source indexer path = .failed) (count : Nat) :
    ((Update.advance source)^[count] (indexer, .stat path)).1 = indexer := by
  unfold fileOutcome at failed
  cases timed : source.modified path with
  | error error =>
    have stopped : Update.advance source (indexer, .stat path) =
        (indexer, .finished (.error error)) := by
      simp only [Update.advance, Update.step, timed]
    rcases count with _ | more
    · rfl
    · rw [Function.iterate_succ_apply, stopped, Update.advance_finished]
  | ok modified =>
    rw [timed] at failed
    by_cases stale : indexer.cache.isStale path modified
    · cases opened : source.read path with
      | error error =>
        have toCheck : Update.advance source (indexer, .stat path) =
            (indexer, .check path modified) := by
          simp only [Update.advance, Update.step, timed]
        have toRead : Update.advance source (indexer, .check path modified) =
            (indexer, .read path modified) := by
          simp only [Update.advance, Update.step, if_pos stale]
        have stopped : Update.advance source (indexer, .read path modified) =
            (indexer, .finished (.error error)) := by
          simp only [Update.advance, Update.step, opened]
        rcases count with _ | _ | _ | more
        · rfl
        · rw [Function.iterate_one, toCheck]
        · rw [Function.iterate_succ_apply, toCheck, Function.iterate_one, toRead]
        · rw [Function.iterate_succ_apply, toCheck, Function.iterate_succ_apply, toRead,
            Function.iterate_succ_apply, stopped, Update.advance_finished]
      | ok content => simp [stale, opened] at failed
    · simp [stale] at failed

end File

section Step

/-- One thing that a walk came across adds its outcome to the report. Nothing else changes
unless a file is read, and then one more file was parsed. -/
theorem scanEncounter_of_outcome (state : ScanStats × Indexer) (encounter : Encounter) :
    (scanEncounter state encounter).1 = (state.2.outcome encounter).addTo state.1 ∧
      (state.2.outcome encounter ≠ .parsed → (scanEncounter state encounter).2 = state.2) ∧
      (scanEncounter state encounter).2.parses =
        state.2.parses + [state.2.outcome encounter].count .parsed := by
  obtain ⟨source, visit⟩ := encounter
  cases visit with
  | failure path => exact ⟨rfl, fun _ => rfl, rfl⟩
  | directory path => exact ⟨rfl, fun _ => rfl, rfl⟩
  | file path =>
    by_cases isSource : state.2.isSource path
    · have judged : state.2.outcome ⟨source, .file path⟩ = fileOutcome source state.2 path :=
        if_pos isSource
      have given := indexFile_of_outcome source state.2 path
      rw [judged, scanEncounter, scanVisit, if_pos isSource]
      cases became : fileOutcome source state.2 path with
      | passedOver => rw [became] at given; exact given.elim
      | refused => rw [became] at given; exact given.elim
      | failed =>
        rw [became] at given
        obtain ⟨error, failed⟩ := given
        rw [failed]
        exact ⟨rfl, fun _ => rfl, rfl⟩
      | cached =>
        rw [became] at given
        dsimp only at given
        rw [given]
        exact ⟨rfl, fun _ => rfl, rfl⟩
      | parsed =>
        rw [became] at given
        obtain ⟨after, read, parses⟩ := given
        rw [read]
        exact ⟨rfl, fun unread => absurd rfl unread, parses⟩
    · have judged : state.2.outcome ⟨source, .file path⟩ = .passedOver := if_neg isSource
      rw [judged, scanEncounter, scanVisit, if_neg isSource]
      exact ⟨rfl, fun _ => rfl, rfl⟩

/-- What the indexer becomes does not depend on what was reported so far. -/
theorem scanEncounter_snd_congr {left right : ScanStats × Indexer} (same : left.2 = right.2)
    (encounter : Encounter) :
    (scanEncounter left encounter).2 = (scanEncounter right encounter).2 := by
  rw [scanEncounter, scanEncounter, scanVisit_snd, scanVisit_snd, same]

end Step

section Run

/-- What the indexer becomes in a scan does not depend on what was reported before. -/
theorem scanEncounters_snd_congr {left right : ScanStats × Indexer} (same : left.2 = right.2)
    (encounters : List Encounter) :
    (scanEncounters left encounters).2 = (scanEncounters right encounters).2 := by
  induction encounters generalizing left right with
  | nil => exact same
  | cons encounter rest inductionHypothesis =>
    exact inductionHypothesis (scanEncounter_snd_congr same encounter)

variable (indexer : Indexer) (encounters : List Encounter) (last : Encounter)

/-- The last thing that a walk came across is dealt with after all others. -/
theorem scanEncounters_concat (state : ScanStats × Indexer) :
    scanEncounters state (encounters ++ [last]) =
      scanEncounter (scanEncounters state encounters) last := by
  rw [scanEncounters, List.foldl_append]
  rfl

/-- The last entry of the log is about the indexer that the others have led to. -/
theorem log_concat :
    indexer.log (encounters ++ [last]) = indexer.log encounters ++
      [(last, (scanEncounters ({}, indexer) encounters).2.outcome last)] := by
  induction encounters generalizing indexer with
  | nil => rfl
  | cons encounter rest inductionHypothesis =>
    let after := scanEncounter ({}, indexer) encounter
    have start : (({}, after.2) : ScanStats × Indexer).2 = after.2 := rfl
    have same := scanEncounters_snd_congr start rest
    rw [List.cons_append, log, log, inductionHypothesis, List.cons_append, same]
    rfl

/-- One more outcome is added to what is reported of the others. -/
theorem tally_concat (outcomes : List Outcome) (last : Outcome) :
    tally (outcomes ++ [last]) = last.addTo (tally outcomes) := by
  cases last <;> simp [tally, Outcome.addTo, List.count_append] <;> omega

/-- A scan reports what its log says. -/
theorem scanEncounters_fst :
    (scanEncounters ({}, indexer) encounters).1 = tally ((indexer.log encounters).map (·.2)) := by
  induction encounters using List.reverseRecOn with
  | nil => rfl
  | append_singleton encounters last inductionHypothesis =>
    rw [scanEncounters_concat, (scanEncounter_of_outcome _ last).1, inductionHypothesis, log_concat,
      List.map_append, List.map_singleton, tally_concat]

/-- A scan parses the files that its log says were read. -/
theorem parses_scanEncounters :
    (scanEncounters ({}, indexer) encounters).2.parses =
      indexer.parses + ((indexer.log encounters).map (·.2)).count .parsed := by
  induction encounters using List.reverseRecOn with
  | nil => rfl
  | append_singleton encounters last inductionHypothesis =>
    rw [scanEncounters_concat, (scanEncounter_of_outcome _ last).2.2, inductionHypothesis,
      log_concat, List.map_append, List.map_singleton, List.count_append, Nat.add_assoc]

/-- A scan ends as it would without what failed. -/
theorem scanEncounters_without_failures :
    (scanEncounters ({}, indexer) (((indexer.log encounters).filter
      fun entry => !entry.2.isFailure).map (·.1))).2 =
        (scanEncounters ({}, indexer) encounters).2 := by
  induction encounters using List.reverseRecOn with
  | nil => rfl
  | append_singleton encounters last inductionHypothesis =>
    rw [log_concat, List.filter_append, List.filter_singleton, List.map_append,
      scanEncounters_concat]
    cases failed : ((scanEncounters ({}, indexer) encounters).2.outcome last).isFailure with
    | true =>
      have unread : (scanEncounters ({}, indexer) encounters).2.outcome last ≠ .parsed := by
        intro read
        rw [read] at failed
        exact Bool.noConfusion failed
      rw [(scanEncounter_of_outcome _ last).2.1 unread]
      simpa using inductionHypothesis
    | false =>
      simp only [Bool.not_false, cond_true, List.map_singleton, scanEncounters_concat]
      exact scanEncounter_snd_congr inductionHypothesis last

/-- Walks over files that do not change are such a sequence. -/
theorem scanVisits_eq_scanEncounters (source : FileSource) (state : ScanStats × Indexer)
    (visits : List Visit) :
    scanVisits source state visits = scanEncounters state (visits.map (Encounter.mk source)) := by
  rw [scanEncounters, List.foldl_map]
  rfl

end Run

/-- Failures are isolated, wherever they come up in a scan.

A scan ends with the indexer that it would end with if the places where the walk failed, and
the source files whose time or content could not be had, were taken out of what it came
across. Each source file that it met was parsed, found in the cache, or failed; each error
that it reports is a failure of the walk or of a file; and it has extracted as many files as it
reports.

A file that fails changes nothing, whether or not it is known, and at no step on the way. -/
theorem failures_are_isolated (indexer : Indexer) (encounters : List Encounter) :
    let log := indexer.log encounters
    let sound := (log.filter fun entry => !entry.2.isFailure).map (·.1)
    let failing := (log.map (·.2)).count .failed
    let refused := (log.map (·.2)).count .refused
    let scan := scanEncounters ({}, indexer) encounters
    (scanEncounters ({}, indexer) sound).2 = scan.2 ∧
    scan.1.indexed = scan.1.parsed + scan.1.cached + failing ∧
    scan.1.errors = refused + failing ∧
    scan.2.parses = indexer.parses + scan.1.parsed ∧
    (∀ source roots, indexer.scanning = false →
      encounters = (roots.flatMap source.walk).map (Encounter.mk source) →
        indexer.indexRoots source roots = (some scan.1, scan.2)) ∧
    ∀ source path, fileOutcome source indexer path = .failed →
      indexer.reindex source path = (false, indexer) ∧
        ∀ count, ((Update.advance source)^[count] (indexer, .stat path)).1 = indexer := by
  intro log sound failing refused scan
  have reported : scan.1 = tally (log.map (·.2)) := scanEncounters_fst indexer encounters
  refine ⟨scanEncounters_without_failures indexer encounters, ?_, ?_, ?_, ?_, ?_⟩
  · rw [reported]
    rfl
  · rw [reported]
    rfl
  · rw [reported]
    exact parses_scanEncounters indexer encounters
  · intro source roots free met
    rw [indexRoots, free, scanVisits_eq_scanEncounters, ← met]
    rfl
  · intro source path failed
    exact ⟨reindex_of_failed failed, advance_of_failed failed⟩

end Papyrus.Indexer
