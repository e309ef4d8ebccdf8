import Papyrus.Proofs.Indexer.Alignment

/-!
# Requests as actions on single files

A request to an indexer comes down to actions on single files: source files are brought up
to date one after the other, or everything at or below a path is forgotten. Which actions a
request asks for is told by the request, the files it finds and the extension of source
files; it does not depend on what the indexer knows by then.

How a file is brought up to date is left open here. The requests carried out with
`indexFile` are the requests of the indexer, so that another way to bring a file up to date
can be compared with it on the same actions.
-/
namespace Papyrus.Indexer

/-- A way to bring one file up to date. -/
abbrev Refresh := FileSource → Indexer → Path → Except FileError (Bool × Indexer)

/-- The indexer after an attempt to bring a file up to date, which may fail. -/
def attempt (refresh : Refresh) (source : FileSource) (indexer : Indexer) (path : Path) :
    Indexer :=
  match refresh source indexer path with
  | .ok result => result.2
  | .error _ => indexer

/-- What an indexer is asked to do about one path, with the files as they are found then. -/
inductive Action where
  | refresh (source : FileSource) (path : Path)
  | forget (path : Path)

/-- The indexer after an action. -/
def Action.apply (refresh : Refresh) (indexer : Indexer) : Action → Indexer
  | .refresh source path => indexer.attempt refresh source path
  | .forget path => (indexer.forget path).2

/-- The indexer after some actions, the first of them first. -/
def carryOut (refresh : Refresh) (indexer : Indexer) (actions : List Action) : Indexer :=
  actions.foldl (Action.apply refresh) indexer

/-- The source file that a walk came across, if it is one. -/
def sourceFile? (indexer : Indexer) : Visit → Option Path
  | .file path => if indexer.isSource path then some path else none
  | .directory _ | .failure _ => none

/-- The source files that walks came across. A file that was met twice stands there
twice. -/
def encounters (indexer : Indexer) (visits : List Visit) : List Path :=
  visits.filterMap indexer.sourceFile?

/-- The actions that a request asks for. -/
def Call.actions (indexer : Indexer) : Call → List Action
  | .indexRoots source roots =>
    if indexer.scanning then []
    else (indexer.encounters (roots.flatMap source.walk)).map (.refresh source)
  | .reindex source path => if indexer.isSource path then [.refresh source path] else []
  | .forget path => [.forget path]

/-- The actions that some requests ask for, one after the other. -/
def actionsOf (indexer : Indexer) (calls : List Call) : List Action :=
  calls.flatMap (·.actions indexer)

/-- The indexer after some requests, with the given way to bring a file up to date. -/
def performBy (refresh : Refresh) (indexer : Indexer) (calls : List Call) : Indexer :=
  indexer.carryOut refresh (indexer.actionsOf calls)

section Settings

/-- Two indexers that take the same files for sources and scan at the same times. -/
structure SameSettings (indexer other : Indexer) : Prop where
  extension : indexer.extension = other.extension
  scanning : indexer.scanning = other.scanning

section Same

variable {indexer other : Indexer} (same : SameSettings indexer other)

include same

/-- The same files are sources under the same settings. -/
theorem SameSettings.isSource_eq (path : Path) : indexer.isSource path = other.isSource path := by
  rw [isSource, isSource, same.extension]

/-- The same source files are met under the same settings. -/
theorem SameSettings.encounters_eq (visits : List Visit) :
    indexer.encounters visits = other.encounters visits := by
  have sameFiles : indexer.sourceFile? = other.sourceFile? := by
    funext visit
    cases visit <;> simp only [sourceFile?, same.isSource_eq]
  rw [encounters, encounters, sameFiles]

/-- The same actions are asked for under the same settings. -/
theorem SameSettings.actions_eq (call : Call) : call.actions indexer = call.actions other := by
  cases call with
  | indexRoots source roots => simp only [Call.actions, same.scanning, same.encounters_eq]
  | reindex source path => simp only [Call.actions, same.isSource_eq]
  | forget path => rfl

end Same

/-- An attempt to bring a file up to date leaves the settings. -/
theorem attempt_sameSettings (source : FileSource) (indexer : Indexer) (path : Path) :
    SameSettings (indexer.attempt indexFile source path) indexer := by
  unfold attempt
  split
  next result done =>
    obtain ⟨modified, _, ⟨_, rfl⟩ | ⟨content, _, _, rfl⟩⟩ := indexFile_cases done
    · exact ⟨rfl, rfl⟩
    · exact ⟨rfl, rfl⟩
  next => exact ⟨rfl, rfl⟩

/-- Actions leave the settings. -/
theorem carryOut_sameSettings (indexer : Indexer) (actions : List Action) :
    SameSettings (indexer.carryOut indexFile actions) indexer := by
  induction actions generalizing indexer with
  | nil => exact ⟨rfl, rfl⟩
  | cons action rest inductionHypothesis =>
    have step : SameSettings (action.apply indexFile indexer) indexer := by
      cases action with
      | refresh source path => exact attempt_sameSettings source indexer path
      | forget path => exact ⟨rfl, rfl⟩
    have later := inductionHypothesis (action.apply indexFile indexer)
    exact ⟨later.extension.trans step.extension, later.scanning.trans step.scanning⟩

end Settings

section Requests

/-- What a walk came across is an attempt to bring a source file up to date, or nothing. -/
theorem scanVisit_snd (source : FileSource) (state : ScanStats × Indexer) (visit : Visit) :
    (scanVisit source state visit).2 =
      match state.2.sourceFile? visit with
      | some path => state.2.attempt indexFile source path
      | none => state.2 := by
  cases visit with
  | failure path => rfl
  | directory path => rfl
  | file path =>
    by_cases isSource : state.2.isSource path
    · simp only [scanVisit, sourceFile?, isSource, if_true, attempt]
      cases state.2.indexFile source path with
      | error error => rfl
      | ok result => rcases result with ⟨_ | _, indexer⟩ <;> rfl
    · simp [scanVisit, sourceFile?, isSource]

/-- A scan brings the source files that it met up to date, in that order. -/
theorem scanVisits_snd (source : FileSource) (state : ScanStats × Indexer)
    (visits : List Visit) :
    (scanVisits source state visits).2 =
      state.2.carryOut indexFile ((state.2.encounters visits).map (.refresh source)) := by
  induction visits generalizing state with
  | nil => rfl
  | cons visit rest inductionHypothesis =>
    have later := inductionHypothesis (scanVisit source state visit)
    change (scanVisits source (scanVisit source state visit) rest).2 = _
    rw [later, scanVisit_snd]
    unfold encounters
    cases met : state.2.sourceFile? visit with
    | none => rw [List.filterMap_cons_none met]
    | some path =>
      have same := attempt_sameSettings source state.2 path
      rw [List.filterMap_cons_some met]
      change carryOut indexFile _ (List.map _ (encounters _ rest)) = _
      rw [same.encounters_eq rest]
      rfl

/-- A request does what its actions do. -/
theorem Call.apply_eq_carryOut (indexer : Indexer) (call : Call) :
    call.apply indexer = indexer.carryOut indexFile (call.actions indexer) := by
  cases call with
  | indexRoots source roots =>
    simp only [Call.apply, Call.actions, Indexer.indexRoots]
    split
    next => rfl
    next => exact scanVisits_snd source ({}, indexer) (roots.flatMap source.walk)
  | reindex source path =>
    simp only [Call.apply, Call.actions, Indexer.reindex]
    split
    next =>
      change _ = indexer.attempt indexFile source path
      rw [attempt]
      cases indexer.indexFile source path <;> rfl
    next => rfl
  | forget path => rfl

/-- Requests, one after the other, do what their actions do. The actions of all of them can
be told at the start, because none of them changes the settings. -/
theorem perform_eq_performBy (indexer : Indexer) (calls : List Call) :
    indexer.perform calls = indexer.performBy indexFile calls := by
  induction calls using List.reverseRecOn with
  | nil => rfl
  | append_singleton calls call inductionHypothesis =>
    have last : indexer.perform (calls ++ [call]) = call.apply (indexer.perform calls) := by
      simp only [perform, List.foldl_append, List.foldl_cons, List.foldl_nil]
    rw [last, inductionHypothesis, Call.apply_eq_carryOut, performBy,
      (carryOut_sameSettings indexer (indexer.actionsOf calls)).actions_eq call]
    simp only [performBy, actionsOf, carryOut, List.flatMap_append, List.flatMap_singleton, List.foldl_append]

end Requests

end Papyrus.Indexer
