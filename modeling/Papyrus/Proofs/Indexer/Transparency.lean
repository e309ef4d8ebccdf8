import Papyrus.Proofs.Indexer.Action
import Papyrus.Proofs.Indexer.Reflection

/-!
# The cache changes no answer

The cache spares an indexer the reading of files. Compare it with an indexer that is given
the same requests over the same files and reads every file it is asked about. As long as a
file that has the remembered time still holds what it was parsed from, the two have the same
symbols and the same scripts after every request.

They do not have the same stores. A file that is read again becomes the last of those that
declare its script, and one that is not read stays where it was, so that the two may answer
differently for a name that several files declare. What they share at every moment is what
they know of each file, and this is the relation that every action keeps.
-/
namespace Papyrus.Indexer

/-- Bring one file up to date by reading it, whatever is remembered of it. -/
def rereadFile (source : FileSource) (indexer : Indexer) (path : Path) :
    Except FileError (Bool × Indexer) := do
  let modified ← source.modified path
  let content ← source.read path
  return (true, indexer.absorb path modified (.ofFile path content))

/-- What a path was parsed from, if an action had it parsed. -/
def Action.parsed? (indexer : Indexer) (path : Path) : Action → Option (List UInt8)
  | .refresh source other =>
    match indexer.indexFile source other with
    | .ok (true, _) => if other == path then (source.read other).toOption else none
    | _ => none
  | .forget _ => none

/-- What a path was last parsed from in the course of some actions. -/
def parsedFrom? (indexer : Indexer) : List Action → Path → Option (List UInt8)
  | [], _ => none
  | action :: rest, path =>
    ((action.apply indexFile indexer).parsedFrom? rest path).or (action.parsed? indexer path)

/-- Whenever a file is to be brought up to date in the course of some actions and its time
is the one in the cache, it still holds what it was parsed from. -/
def TimesTell (indexer : Indexer) (actions : List Action) : Prop :=
  ∀ earlier source path later, actions = earlier ++ Action.refresh source path :: later →
    ∀ entry, (indexer.carryOut indexFile earlier).cache.entries.find? path = some entry →
      source.modified path = .ok entry.modified →
        ∀ content, indexer.parsedFrom? earlier path = some content →
          source.read path = .ok content

/-- The last action decides what a path was parsed from if it had it parsed. -/
theorem parsedFrom?_append (indexer : Indexer) (actions : List Action) (action : Action)
    (path : Path) :
    indexer.parsedFrom? (actions ++ [action]) path =
      (action.parsed? (indexer.carryOut indexFile actions) path).or
        (indexer.parsedFrom? actions path) := by
  induction actions generalizing indexer with
  | nil => simp [parsedFrom?, carryOut]
  | cons first rest inductionHypothesis =>
    rw [List.cons_append, parsedFrom?, inductionHypothesis, parsedFrom?, Option.or_assoc]
    rfl

/-- Times that tell in the course of some actions tell in the course of the first of them. -/
theorem TimesTell.take {indexer : Indexer} {actions done : List Action}
    (timesTell : indexer.TimesTell actions) (begun : done <+: actions) :
    indexer.TimesTell done := by
  obtain ⟨rest, rfl⟩ := begun
  intro earlier source path later split
  refine timesTell earlier source path (later ++ rest) ?_
  rw [split, List.append_assoc, List.cons_append]

/-- Two indexers that know the same files. Nothing is said of the order in which they came
to know them, or of the second one's cache. -/
structure Alike (cached plain : Indexer) (known : Files) : Prop where
  reflects : cached.Reflects known
  valid : plain.index.Valid
  symbols : ∀ path, cached.index.symbols? path = plain.index.symbols? path
  scripts : ∀ path, cached.index.scripts.find? path = plain.index.scripts.find? path

namespace Alike

variable {cached plain : Indexer} {known : Files} (alike : Alike cached plain known)

include alike

/-- Reading a file in both makes it known to both. -/
theorem absorb (path : Path) (file : Timestamp × List UInt8) :
    Alike (cached.absorb path file.1 (.ofFile path file.2))
      (plain.absorb path file.1 (.ofFile path file.2)) (known.learn path file) where
  reflects := alike.reflects.absorb path file
  valid := alike.valid.put path _ _
  symbols other := by
    simp only [Indexer.absorb, Index.symbols?_put, alike.symbols]
  scripts other := by
    simp only [Indexer.absorb, Index.find?_put_scripts, alike.scripts]

/-- Reading a known file again tells the second indexer nothing new. -/
theorem absorb_known {path : Path} {file : Timestamp × List UInt8}
    (isKnown : known path = some file) :
    Alike cached (plain.absorb path file.1 (.ofFile path file.2)) known where
  reflects := alike.reflects
  valid := alike.valid.put path _ _
  symbols other := by
    simp only [Indexer.absorb, Index.symbols?_put, ← alike.symbols]
    split
    next same =>
      rw [alike.reflects.symbols, ← alike.reflects.respected path other same, isKnown,
        Option.map_some, Extraction.ofFile_congr same]
    next => rfl
  scripts other := by
    simp only [Indexer.absorb, Index.find?_put_scripts, ← alike.scripts]
    split
    next same =>
      rw [alike.reflects.scripts, ← alike.reflects.respected path other same, isKnown,
        Option.bind_some, Extraction.ofFile_congr same]
    next => rfl

/-- Both forget the same files. -/
theorem forget (path : Path) :
    Alike (cached.forget path).2 (plain.forget path).2 (known.drop path) where
  reflects := alike.reflects.forget path
  valid := alike.valid.removeUnder path
  symbols other := by
    simp only [Indexer.forget, Index.symbols?_removeUnder, alike.symbols]
  scripts other := by
    simp only [Indexer.forget, alike.reflects.valid.find?_removeUnder_scripts,
      alike.valid.find?_removeUnder_scripts, alike.scripts]

end Alike

section Reading

variable {source : FileSource} {path : Path}

/-- With the time and the content at hand, a file that is read whatever is remembered of it
is absorbed. -/
theorem attempt_rereadFile_of_gives {file : Timestamp × List UInt8}
    (gives : source.Gives path file) (indexer : Indexer) :
    indexer.attempt rereadFile source path =
      indexer.absorb path file.1 (.ofFile path file.2) := by
  simp only [attempt, rereadFile, gives.1, gives.2, bind, Except.bind]
  rfl

/-- With the time and the content at hand, a file is absorbed if it is stale. -/
theorem attempt_indexFile_of_gives {file : Timestamp × List UInt8}
    (gives : source.Gives path file) (indexer : Indexer) :
    indexer.attempt indexFile source path =
      if indexer.cache.isStale path file.1 then indexer.absorb path file.1 (.ofFile path file.2)
      else indexer := by
  rw [attempt, indexFile_of_gives gives]
  by_cases stale : indexer.cache.isStale path file.1
  · simp only [if_pos stale]
  · simp only [if_neg stale]

/-- Without the time or the content of a file, nothing can be read. -/
theorem attempt_rereadFile_of_fails
    (fails : ∀ file, ¬ source.Gives path file) (indexer : Indexer) :
    indexer.attempt rereadFile source path = indexer := by
  unfold attempt rereadFile
  cases timed : source.modified path with
  | error error => simp [bind, Except.bind]
  | ok modified =>
    cases opened : source.read path with
    | error error => simp [bind, Except.bind]
    | ok content => exact absurd ⟨timed, opened⟩ (fails (modified, content))

/-- A file that is stale is parsed from its content. -/
theorem Action.parsed?_of_stale {file : Timestamp × List UInt8} (gives : source.Gives path file)
    {indexer : Indexer} (stale : indexer.cache.isStale path file.1) (other : Path) :
    (Action.refresh source path).parsed? indexer other =
      if path == other then some file.2 else none := by
  simp only [parsed?, indexFile_of_gives gives, if_pos stale, gives.2]
  rfl

/-- Where a file is not stale or cannot be read, nothing changes and nothing is parsed. -/
theorem unchanged_of_not_read (indexer : Indexer)
    (notRead : ∀ file, source.Gives path file → indexer.cache.isStale path file.1 = false) :
    indexer.attempt indexFile source path = indexer ∧
      ∀ other, (Action.refresh source path).parsed? indexer other = none := by
  simp only [attempt, Action.parsed?]
  cases done : indexer.indexFile source path with
  | error error => exact ⟨rfl, fun _ => rfl⟩
  | ok result =>
    obtain ⟨modified, timed, ⟨_, rfl⟩ | ⟨content, stale, opened, rfl⟩⟩ := indexFile_cases done
    · exact ⟨rfl, fun _ => rfl⟩
    · exact absurd (notRead (modified, content) ⟨timed, opened⟩) (by simp [stale])

end Reading

section Course

/-- Two indexers in the course of some actions. They know the same files, and each file as
it was last parsed. -/
def Abreast (start : Indexer) (actions : List Action) : Prop :=
  ∃ known, Alike (start.carryOut indexFile actions) (start.carryOut rereadFile actions) known ∧
    ∀ path file, known path = some file → start.parsedFrom? actions path = some file.2

variable {start : Indexer} {actions : List Action}

/-- Actions are carried out one after the other. -/
theorem carryOut_append (refresh : Refresh) (start : Indexer) (actions : List Action)
    (action : Action) : start.carryOut refresh (actions ++ [action]) =
      action.apply refresh (start.carryOut refresh actions) := by
  simp only [carryOut, List.foldl_append, List.foldl_cons, List.foldl_nil]

/-- Forgetting keeps the two abreast. -/
theorem Abreast.forget (abreast : start.Abreast actions) (path : Path) :
    start.Abreast (actions ++ [Action.forget path]) := by
  obtain ⟨known, alike, parsed⟩ := abreast
  refine ⟨known.drop path, ?_, ?_⟩
  · simp only [carryOut_append]
    exact alike.forget path
  · intro other file isKnown
    rw [parsedFrom?_append]
    rw [Files.drop] at isKnown
    split at isKnown
    · exact absurd isKnown.symm (Option.some_ne_none file)
    · exact parsed other file isKnown

/-- Bringing a file up to date keeps the two abreast, if a file that has the time in the
cache still holds what it was parsed from.

A file that cannot be read changes neither. One that is stale is read by both. One that is
not stale is read by the second alone, and holds what is known of it. -/
theorem Abreast.refresh (abreast : start.Abreast actions) (source : FileSource) (path : Path)
    (timesTell : start.TimesTell (actions ++ [Action.refresh source path])) :
    start.Abreast (actions ++ [Action.refresh source path]) := by
  obtain ⟨known, alike, parsed⟩ := abreast
  have tells := timesTell actions source path [] rfl
  -- What the file was parsed from is what is read of it now.
  have current {modified : Timestamp} (timed : source.modified path = .ok modified)
      (fresh : (start.carryOut indexFile actions).cache.isStale path modified = false) :
      ∃ content, known path = some (modified, content) ∧ source.read path = .ok content := by
    obtain ⟨content, isKnown, cached⟩ := alike.reflects.known_of_fresh fresh
    exact ⟨content, isKnown, tells _ cached timed content (parsed path _ isKnown)⟩
  simp only [Abreast, carryOut_append, Action.apply, parsedFrom?_append]
  by_cases given : ∃ file, source.Gives path file
  · obtain ⟨file, gives⟩ := given
    rw [attempt_rereadFile_of_gives gives]
    by_cases stale : (start.carryOut indexFile actions).cache.isStale path file.1
    · refine ⟨known.learn path file, ?_, ?_⟩
      · rw [attempt_indexFile_of_gives gives, if_pos stale]
        exact alike.absorb path file
      · intro other otherFile isKnown
        rw [Action.parsed?_of_stale gives stale]
        rw [Files.learn] at isKnown
        split at isKnown
        next same => rw [if_pos same, Option.some_or, Option.some.inj isKnown]
        next differs =>
          rw [if_neg differs, Option.none_or]
          exact parsed other otherFile isKnown
    · rw [Bool.not_eq_true] at stale
      obtain ⟨content, isKnown, opened⟩ := current gives.1 stale
      have same : file.2 = content := Except.ok.inj (gives.2.symm.trans opened)
      obtain ⟨unchanged, nothing⟩ := unchanged_of_not_read _ fun other otherGives => by
        rwa [Except.ok.inj (otherGives.1.symm.trans gives.1)]
      refine ⟨known, ?_, ?_⟩
      · rw [unchanged]
        exact alike.absorb_known (by rw [isKnown, ← same])
      · intro other otherFile otherKnown
        rw [nothing, Option.none_or]
        exact parsed other otherFile otherKnown
  · have fails (file : Timestamp × List UInt8) : ¬ source.Gives path file :=
      fun gives => given ⟨file, gives⟩
    obtain ⟨unchanged, nothing⟩ := unchanged_of_not_read (start.carryOut indexFile actions)
      fun file gives => absurd gives (fails file)
    refine ⟨known, ?_, ?_⟩
    · rw [unchanged, attempt_rereadFile_of_fails fails]
      exact alike
    · intro other otherFile otherKnown
      rw [nothing, Option.none_or]
      exact parsed other otherFile otherKnown

/-- The two stay abreast through all actions. -/
theorem abreast_of_timesTell (extension : String) {actions : List Action}
    (timesTell : (new extension).TimesTell actions) : (new extension).Abreast actions := by
  induction actions using List.reverseRecOn with
  | nil =>
    refine ⟨fun _ => none, ⟨new_reflects extension, Index.empty_valid, fun _ => rfl,
      fun _ => rfl⟩, ?_⟩
    intro path file isKnown
    exact absurd isKnown.symm (Option.some_ne_none file)
  | append_singleton actions action inductionHypothesis =>
    have abreast := inductionHypothesis (timesTell.take (List.prefix_append actions [action]))
    cases action with
    | refresh source path => exact abreast.refresh source path timesTell
    | forget path => exact abreast.forget path

end Course

/-- After every request, the cache has changed no answer.

The indexer is compared with one that reads every file it is asked about. Where a file that
has the time in the cache always holds what it was parsed from, both have the same symbols
and the same scripts, and the same answer for a name that at most one indexed file
declares. -/
theorem cache_changes_no_answer (extension : String) {calls done : List Call}
    (timesTell : (new extension).TimesTell ((new extension).actionsOf calls))
    (begun : done <+: calls) :
    let cached := (new extension).perform done
    let plain := (new extension).performBy rereadFile done
    (∀ path, cached.index.symbols? path = plain.index.symbols? path) ∧
    (∀ path, cached.index.scripts.find? path = plain.index.scripts.find? path) ∧
    (∀ name, (∀ first second firstScript secondScript,
        cached.index.scripts.find? first = some firstScript →
        Script.key firstScript.name = Script.key name →
        cached.index.scripts.find? second = some secondScript →
        Script.key secondScript.name = Script.key name → first == second) →
      cached.index.script? name = plain.index.script? name) := by
  intro cached plain
  have taken : (new extension).actionsOf done <+: (new extension).actionsOf calls := by
    obtain ⟨rest, rfl⟩ := begun
    exact ⟨(new extension).actionsOf rest, by simp only [actionsOf, List.flatMap_append]⟩
  obtain ⟨known, alike, _⟩ := abreast_of_timesTell extension (timesTell.take taken)
  have sameRun : cached = (new extension).carryOut indexFile ((new extension).actionsOf done) :=
    perform_eq_performBy (new extension) done
  rw [← sameRun] at alike
  refine ⟨alike.symbols, alike.scripts, ?_⟩
  intro name alone
  exact alike.reflects.valid.scriptAt?_eq_of_scripts alike.valid alike.scripts alone

/-- A file is scanned, asked about once more and changed. The cache spares one of three
readings. -/
theorem cache_spares_the_second_of_three_readings :
    let path : Path := ⟨"/r/a.psc"⟩
    let before : FileSource :=
      ⟨fun _ => .ok ⟨1⟩, fun _ => .ok "ScriptName Alpha".toUTF8.toList, fun _ => [.file path]⟩
    let after : FileSource :=
      ⟨fun _ => .ok ⟨2⟩, fun _ => .ok "ScriptName Beta".toUTF8.toList, fun _ => [.file path]⟩
    let calls : List Call := [.indexRoots before [⟨"/r"⟩], .reindex before path, .reindex after path]
    (new "psc").TimesTell ((new "psc").actionsOf calls) ∧
      ((new "psc").perform calls).parses = 2 ∧
      ((new "psc").performBy rereadFile calls).parses = 3 ∧
      ∀ other, ((new "psc").perform calls).index.symbols? other =
        ((new "psc").performBy rereadFile calls).index.symbols? other := by
  intro path before after calls
  have asked : (new "psc").actionsOf calls =
      [.refresh before path, .refresh before path, .refresh after path] := by cbv
  have givesBefore : before.Gives path (⟨1⟩, "ScriptName Alpha".toUTF8.toList) := ⟨rfl, rfl⟩
  have givesAfter : after.Gives path (⟨2⟩, "ScriptName Beta".toUTF8.toList) := ⟨rfl, rfl⟩
  have timesTell : (new "psc").TimesTell ((new "psc").actionsOf calls) := by
    rw [asked]
    intro earlier source other later split entry cached timed content parsed
    rcases earlier with _ | ⟨first, _ | ⟨second, _ | ⟨third, rest⟩⟩⟩
    · exact absurd cached.symm (Option.some_ne_none entry)
    · obtain ⟨⟨⟩, ⟨⟩⟩ := split
      rw [parsedFrom?, parsedFrom?, Option.none_or, Action.parsed?_of_stale givesBefore rfl,
        if_pos BEq.rfl] at parsed
      exact congrArg Except.ok (Option.some.inj parsed)
    · obtain ⟨⟨⟩, ⟨⟩⟩ := split
      -- The time in the cache is the one before the change.
      have stored : entry.modified = ⟨1⟩ := by
        simp [carryOut, Action.apply, attempt_indexFile_of_gives givesBefore, absorb,
          Cache.isStale, Cache.find?_store, new, Cache.empty] at cached
        rw [← cached]
      rw [stored] at timed
      exact absurd (Except.ok.inj timed) (by decide)
    · exact absurd (congrArg List.length split) (by simp)
  have readTwice : ((new "psc").perform calls).parses = 2 := by
    rw [perform_eq_performBy, performBy, asked]
    simp [carryOut, Action.apply, attempt_indexFile_of_gives givesBefore,
      attempt_indexFile_of_gives givesAfter, absorb, Cache.isStale, Cache.find?_store, new,
      Cache.empty]
  have readThrice : ((new "psc").performBy rereadFile calls).parses = 3 := by
    rw [performBy, asked]
    simp [carryOut, Action.apply, attempt_rereadFile_of_gives givesBefore,
      attempt_rereadFile_of_gives givesAfter, absorb, new]
  exact ⟨timesTell, readTwice, readThrice,
    (cache_changes_no_answer "psc" timesTell (List.prefix_refl calls)).1⟩

end Papyrus.Indexer
