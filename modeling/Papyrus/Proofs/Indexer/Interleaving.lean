import Papyrus.Proofs.Indexer.Update

/-!
# Updates at the same time

Several updates may be under way at once: a scan goes on while single files are brought up to
date or forgotten. Their steps interleave in any order, and files change in between.

An update writes the cache first and the index later. In between it owes the index what the
cache has already. If another update writes the cache for the same path by then, the two
cross, and the index may be left with what the cache has long replaced; the file then counts
as up to date and is not read again. Where updates do not cross at a path, the stores agree on
it in the end, however their other steps interleave and whatever happens to the files.
-/
namespace Papyrus.Indexer

namespace Update

/-- Whether the next step of an update writes the cache for a path. -/
def writesCache (path : Path) : Update → Bool
  | .store other _ _ => other == path
  | .purgeCache above => path.startsWith above
  | _ => false

/-- Whether an update has written the cache for a path and not yet the index. -/
def owes (path : Path) : Update → Bool
  | .put other _ => other == path
  | .purgeIndex above _ => path.startsWith above
  | _ => false

/-- The symbols that an update owes the index, or none where it owes forgetting. -/
def debt : Update → Option (List Symbol)
  | .put _ extraction => some extraction.symbols
  | _ => none

section Step

variable (source : FileSource) (indexer : Indexer) (update : Update) (path : Path)

/-- An update owes the index exactly what it wrote to the cache in its last step. -/
theorem owes_step : (update.step source indexer).2.owes path = update.writesCache path := by
  cases update with
  | stat other => simp only [step]; split <;> rfl
  | check other modified => simp only [step]; split <;> rfl
  | read other modified => simp only [step]; split <;> rfl
  | store other modified extraction => rfl
  | put other extraction => rfl
  | purgeCache above => rfl
  | purgeIndex above purged => rfl
  | finished answer => rfl

/-- The cache changes for the paths it is written for, to what is owed from then on. -/
theorem cache_step : (update.step source indexer).1.cache.symbols? path =
    if update.writesCache path then (update.step source indexer).2.debt
    else indexer.cache.symbols? path := by
  cases update with
  | stat other => simp only [step]; split <;> rfl
  | check other modified => simp only [step]; split <;> rfl
  | read other modified => simp only [step]; split <;> rfl
  | store other modified extraction =>
    by_cases same : other == path <;>
      simp [step, writesCache, debt, Cache.symbols?, Cache.find?_store, same]
  | put other extraction => rfl
  | purgeCache above =>
    by_cases below : path.startsWith above <;>
      simp [step, writesCache, debt, Cache.symbols?, Cache.find?_removeUnder, below]
  | purgeIndex above purged => rfl
  | finished answer => rfl

/-- The index changes for the paths that something is owed for, to what is owed. -/
theorem index_step : (update.step source indexer).1.index.symbols? path =
    if update.owes path then update.debt else indexer.index.symbols? path := by
  cases update with
  | stat other => simp only [step]; split <;> rfl
  | check other modified => simp only [step]; split <;> rfl
  | read other modified => simp only [step]; split <;> rfl
  | store other modified extraction => rfl
  | put other extraction => exact Index.symbols?_put indexer.index other _ _ path
  | purgeCache above => rfl
  | purgeIndex above purged => exact Index.symbols?_removeUnder indexer.index above path
  | finished answer => rfl

end Step

end Update

/-- An indexer and the updates that are made to it at the same time. -/
structure Traffic where
  indexer : Indexer
  updates : List Update

/-- Whose step comes next, and the files as they are then. -/
structure Turn where
  position : Nat
  source : FileSource

namespace Traffic

/-- One update takes its next step. -/
def turn (traffic : Traffic) (turn : Turn) : Traffic :=
  match traffic.updates[turn.position]? with
  | some update =>
    ⟨(update.step turn.source traffic.indexer).1,
      traffic.updates.set turn.position (update.step turn.source traffic.indexer).2⟩
  | none => traffic

/-- Some steps, one after the other. -/
def run (traffic : Traffic) (turns : List Turn) : Traffic :=
  turns.foldl turn traffic

/-- Whether a step writes the cache for a path for which something is owed to the index. -/
def crosses (path : Path) (traffic : Traffic) (turn : Turn) : Bool :=
  traffic.updates[turn.position]?.any (·.writesCache path) && traffic.updates.any (·.owes path)

/-- Whether no step crosses another update at a path. -/
def keepsApart (path : Path) : Traffic → List Turn → Bool
  | _, [] => true
  | traffic, turn :: rest => !traffic.crosses path turn && (traffic.turn turn).keepsApart path rest

/-- The stores agree on a path, up to what one update owes: either nothing is owed for the
path and the stores agree, or one update owes the index what the cache has. -/
def Balanced (path : Path) (traffic : Traffic) : Prop :=
  ((∀ update ∈ traffic.updates, update.owes path = false) ∧
      traffic.indexer.cache.symbols? path = traffic.indexer.index.symbols? path) ∨
    ∃ (position : Nat) (debtor : Update), traffic.updates[position]? = some debtor ∧
      debtor.owes path ∧ traffic.indexer.cache.symbols? path = debtor.debt ∧
      ∀ (other : Nat) (update : Update), traffic.updates[other]? = some update →
        update.owes path → other = position

/-- A step that does not cross keeps the stores balanced.

If it writes the cache, nothing was owed for the path, and from now on this update owes what it
wrote. If it pays a debt, that was the only one, and now the stores agree. -/
theorem Balanced.turn {path : Path} {traffic : Traffic} (balanced : traffic.Balanced path)
    {turn : Turn} (apart : traffic.crosses path turn = false) :
    (traffic.turn turn).Balanced path := by
  unfold Traffic.turn
  cases taken : traffic.updates[turn.position]? with
  | none => exact balanced
  | some update =>
    have inside : turn.position < traffic.updates.length :=
      (List.getElem?_eq_some_iff.mp taken).1
    have isMember : update ∈ traffic.updates := List.mem_of_getElem? taken
    -- What another place of the list holds after the step.
    have elsewhere {next other : Update} {place : Nat}
        (found : (traffic.updates.set turn.position next)[place]? = some other) :
        (place = turn.position ∧ other = next) ∨
          (place ≠ turn.position ∧ traffic.updates[place]? = some other) := by
      rw [List.getElem?_set] at found
      split at found
      next same => exact Or.inl ⟨same.symm, (Option.some.inj found).symm⟩
      next differs => exact Or.inr ⟨Ne.symm differs, found⟩
    by_cases writes : update.writesCache path
    · have nothingOwed : ∀ other ∈ traffic.updates, other.owes path = false := by
        simpa [crosses, taken, writes] using apart
      refine Or.inr ⟨turn.position, (update.step turn.source traffic.indexer).2, ?_, ?_, ?_, ?_⟩
      · rw [List.getElem?_set_self inside]
      · rw [Update.owes_step, writes]
      · rw [Update.cache_step, if_pos writes]
      · intro place other found owing
        rcases elsewhere found with ⟨same, _⟩ | ⟨_, old⟩
        · exact same
        · rw [nothingOwed other (List.mem_of_getElem? old)] at owing
          exact Bool.noConfusion owing
    · have nextOwes : (update.step turn.source traffic.indexer).2.owes path = false := by
        rw [Update.owes_step]
        simpa using writes
      have sameCache : (update.step turn.source traffic.indexer).1.cache.symbols? path =
          traffic.indexer.cache.symbols? path := by
        rw [Update.cache_step, if_neg writes]
      rcases balanced with ⟨nothingOwed, agree⟩ | ⟨position, debtor, found, owing, owed, only⟩
      · refine Or.inl ⟨?_, ?_⟩
        · intro other member
          rcases List.mem_or_eq_of_mem_set member with old | rfl
          · exact nothingOwed other old
          · exact nextOwes
        · rw [sameCache, Update.index_step, nothingOwed update isMember, agree]
          rfl
      · by_cases pays : turn.position = position
        · have isDebtor : update = debtor := by
            rw [pays, found] at taken
            exact (Option.some.inj taken).symm
          subst isDebtor
          refine Or.inl ⟨?_, ?_⟩
          · intro other member
            obtain ⟨place, placed⟩ := List.mem_iff_getElem?.mp member
            rcases elsewhere placed with ⟨_, rfl⟩ | ⟨differs, old⟩
            · exact nextOwes
            · by_contra stillOwes
              rw [Bool.not_eq_false] at stillOwes
              exact differs ((only place other old stillOwes).trans pays.symm)
          · rw [sameCache, Update.index_step, if_pos owing, owed]
        · refine Or.inr ⟨position, debtor, ?_, owing, ?_, ?_⟩
          · rw [List.getElem?_set_ne pays, found]
          · rw [sameCache, owed]
          · intro place other placed otherOwes
            rcases elsewhere placed with ⟨_, rfl⟩ | ⟨_, old⟩
            · rw [nextOwes] at otherOwes
              exact Bool.noConfusion otherOwes
            · exact only place other old otherOwes

/-- Steps that do not cross keep the stores balanced. -/
theorem Balanced.run {path : Path} {traffic : Traffic} (balanced : traffic.Balanced path)
    {turns : List Turn} (apart : traffic.keepsApart path turns) :
    (traffic.run turns).Balanced path := by
  induction turns generalizing traffic with
  | nil => exact balanced
  | cons turn rest inductionHypothesis =>
    rw [keepsApart, Bool.and_eq_true, Bool.not_eq_true'] at apart
    exact inductionHypothesis (balanced.turn apart.1) apart.2

end Traffic

/-- Where updates do not cross at a path, the stores agree on it once all have finished.

The updates are any number of files to bring up to date and paths to forget, their steps
interleave in any order, and every step finds the files in any state. As the stores agree, a
file that is then taken for up to date has the same symbols in both. -/
theorem stores_agree_where_updates_keep_apart {indexer : Indexer} {updates : List Update}
    {turns : List Turn} {path : Path}
    (agreed : indexer.cache.symbols? path = indexer.index.symbols? path)
    (begun : ∀ update ∈ updates, update.isBeginning)
    (apart : Traffic.keepsApart path ⟨indexer, updates⟩ turns)
    (finished : ∀ update ∈ (Traffic.run ⟨indexer, updates⟩ turns).updates, update.isFinished) :
    let last := (Traffic.run ⟨indexer, updates⟩ turns).indexer
    last.cache.symbols? path = last.index.symbols? path ∧
      ∀ source after, last.indexFile source path = .ok (false, after) →
        ∃ symbols, last.cache.symbols? path = some symbols ∧
          last.index.symbols? path = some symbols := by
  intro last
  have nothingOwed : ∀ update ∈ updates, update.owes path = false := by
    intro update member
    have fresh := begun update member
    cases update <;> first | rfl | exact Bool.noConfusion fresh
  have start : Traffic.Balanced path ⟨indexer, updates⟩ := Or.inl ⟨nothingOwed, agreed⟩
  have agree : last.cache.symbols? path = last.index.symbols? path := by
    rcases start.run apart with ⟨_, agree⟩ | ⟨position, debtor, found, owing, _, _⟩
    · exact agree
    · have done := finished debtor (List.mem_of_getElem? found)
      cases debtor <;> first | exact Bool.noConfusion done | exact Bool.noConfusion owing
  refine ⟨agree, ?_⟩
  intro source after hit
  obtain ⟨modified, _, ⟨fresh, _⟩ | ⟨_, _, _, same⟩⟩ := indexFile_cases hit
  · have remembered : ∃ entry, last.cache.entries.find? path = some entry := by
      rw [← Option.isSome_iff_exists]
      by_contra missing
      rw [Option.not_isSome_iff_eq_none] at missing
      rw [Cache.isStale, missing] at fresh
      exact Bool.noConfusion fresh
    obtain ⟨entry, found⟩ := remembered
    have cached : last.cache.symbols? path = some entry.symbols := by
      rw [Cache.symbols?, found, Option.map_some]
    exact ⟨entry.symbols, cached, agree ▸ cached⟩
  · exact absurd (congrArg Prod.fst same) (by simp)

/-- A file is written when one update has read it. A second update reads the new content and
is done before the first one writes what it has read, under the old time. -/
theorem stores_agree_after_a_late_update :
    let path : Path := ⟨"/r/a.psc"⟩
    let before := uniform 1 []
    let after := uniform 2 "event e(".toUTF8.toList
    let updates : List Update := [.stat path, .stat path]
    let turns := List.replicate 3 ⟨0, before⟩ ++ List.replicate 5 ⟨1, after⟩ ++
      List.replicate 2 ⟨0, after⟩
    let last := (Traffic.run ⟨new "psc", updates⟩ turns).indexer
    Traffic.keepsApart path ⟨new "psc", updates⟩ turns ∧
      last.cache.symbols? path = last.index.symbols? path := by
  intro path before after updates turns last
  have apart : Traffic.keepsApart path ⟨new "psc", updates⟩ turns := by
    simp [turns, updates, before, after, uniform, Traffic.keepsApart, Traffic.crosses, Traffic.turn,
      Update.step, Update.writesCache, Update.owes, List.replicate, Cache.isStale, new, Cache.empty]
  have finished : (Traffic.run ⟨new "psc", updates⟩ turns).updates =
      [.finished (.ok true), .finished (.ok true)] := by
    simp [turns, updates, before, after, uniform, Traffic.run, Traffic.turn, Update.step,
      List.replicate, Cache.isStale, new, Cache.empty]
  refine ⟨apart, (stores_agree_where_updates_keep_apart rfl ?_ apart ?_).1⟩
  · simp [updates, Update.isBeginning]
  · rw [finished]
    simp [Update.isFinished]

/-- What is left when two updates of one file cross, the file being written in between. The
cache has what the second one read, and the index what the first one read. -/
theorem run_of_crossing (extension : String) (path : Path) (old recent : List UInt8) :
    Traffic.run ⟨new extension, [.stat path, .stat path]⟩
        (List.replicate 4 ⟨0, uniform 1 old⟩ ++ List.replicate 5 ⟨1, uniform 2 recent⟩ ++
          [⟨0, uniform 2 recent⟩]) =
      ⟨{ new extension with
          parses := 2
          cache := (Cache.empty.store path ⟨1⟩ (Extraction.ofFile path old).symbols).store path
            ⟨2⟩ (Extraction.ofFile path recent).symbols
          index := (Index.empty.put path (Extraction.ofFile path recent).symbols
            (Extraction.ofFile path recent).script).put path (Extraction.ofFile path old).symbols
              (Extraction.ofFile path old).script },
        [.finished (.ok true), .finished (.ok true)]⟩ := by
  simp [Traffic.run, Traffic.turn, Update.step, List.replicate, Cache.isStale, Cache.find?_store,
    new, uniform, Cache.empty]

/-- Two updates of one file cross, and the stores do not agree.

The first update has written the cache when the file is written. The second one brings the
file up to date and is done. Then the first one writes the index, which from there on has the
symbols of the old content, while the file counts as up to date. -/
theorem crossing_updates_part_the_stores :
    let path : Path := ⟨"/r/a.psc"⟩
    let before := uniform 1 []
    let after := uniform 2 "event e(".toUTF8.toList
    let turns := List.replicate 4 ⟨0, before⟩ ++ List.replicate 5 ⟨1, after⟩ ++ [⟨0, after⟩]
    let last := Traffic.run ⟨new "psc", [.stat path, .stat path]⟩ turns
    (∀ update ∈ last.updates, update.isFinished) ∧
      (last.indexer.cache.symbols? path).map (·.map (·.name)) = some ["e"] ∧
      last.indexer.index.symbols? path = some [] ∧
      last.indexer.indexFile after path = .ok (false, last.indexer) := by
  intro path before after turns last
  have left : last = _ := run_of_crossing "psc" path [] "event e(".toUTF8.toList
  have decoded : Text.Utf8.decodeLossy "event e(".toUTF8.toList = "event e(".toList := by cbv
  have oneLine : Text.lines "event e(".toList = ["event e(".toList] := by cbv
  have declared : Declaration.ofLine? "event e(".toList = some (.event "e") := by cbv
  have recent : (Extraction.ofFile path "event e(".toUTF8.toList).symbols.map (·.name) =
      ["e"] := by
    rw [Extraction.ofFile, decoded]
    simp only [Extraction.ofText_eq, oneLine, Extraction.symbolsFrom, declared, Extraction.symbol,
      Declaration.name, List.map_cons, List.map_nil]
  have old : (Extraction.ofFile path []).symbols = [] := by cbv
  rw [left]
  refine ⟨?_, ?_, ?_, ?_⟩
  · simp [Update.isFinished]
  · simp only [Cache.symbols?, Cache.find?_store, BEq.rfl, if_true, Option.map_some, recent]
  · simp only [Index.symbols?_put, BEq.rfl, if_true, old]
  · simp [indexFile, after, uniform, Cache.isStale, Cache.find?_store, bind, Except.bind]
    rfl

end Papyrus.Indexer
