import Papyrus.Proofs.Index.Invariant

/-!
# The index as a function of its history

The index keeps no history, only tables that are patched in place. Still, every answer it
gives is determined by the sequence of changes in a simple way: for each path only the last
change that touches it counts, and among the paths that declare a name only the one stored
last.

A change touches a path when it stores or removes an equal one, or removes everything at or
below some path above it. A path is live when the last change that touches it stored it.
The place of that change in the sequence is the path's moment; two different live paths
never share one.
-/
namespace Papyrus.Index

/-- Whether a change has an effect on what is known of a path. -/
def Operation.touches (path : Path) : Operation → Bool
  | .put other _ _ | .remove other => other == path
  | .removeUnder above => path.startsWith above

/-- What was stored for a path, and at which place in the sequence. -/
structure Stored where
  moment : Nat
  symbols : List Symbol
  script : Option Script
  deriving DecidableEq, Repr

/-- What a change at some place of the sequence stores. -/
def Operation.stored? (moment : Nat) : Operation → Option Stored
  | .put _ symbols script => some ⟨moment, symbols, script⟩
  | .remove _ | .removeUnder _ => none

/-- The last change that touches a path, with its place in the sequence. -/
def lastTouch? (operations : List Operation) (path : Path) : Option (Operation × Nat) :=
  operations.zipIdx.reverse.find? fun entry => entry.1.touches path

/-- What is stored for a path, if it is live: if the last change that touches it stored
it. -/
def stored? (operations : List Operation) (path : Path) : Option Stored :=
  (lastTouch? operations path).bind fun entry => entry.1.stored? entry.2

/-- A live path declares a key when the script that was stored with it has that key. -/
def Declares (operations : List Operation) (path : Path) (key : String) : Prop :=
  ∃ stored script, stored? operations path = some stored ∧ stored.script = some script ∧
    Script.key script.name = key

/-- The file that a change adds to the list of a key. -/
def Operation.newcomers (key : String) : Operation → List Path
  | .put path _ script =>
    if script.any (fun script => Script.key script.name == key) then [path] else []
  | .remove _ | .removeUnder _ => []

section Effects

/-- Equal paths are touched by the same changes. -/
theorem Operation.touches_congr (operation : Operation) {left right : Path}
    (same : left == right) : operation.touches left = operation.touches right := by
  cases operation with
  | put path symbols script => exact BEq.congr_right same
  | remove path => exact BEq.congr_right same
  | removeUnder above => exact Path.startsWith_congr same above

/-- A change decides the symbols of the paths it touches and of no others. The place in
the sequence plays no part in this. -/
theorem symbols?_apply (index : Index) (operation : Operation) (moment : Nat) (path : Path) :
    (operation.apply index).symbols? path =
      if operation.touches path then (operation.stored? moment).map (·.symbols)
      else index.symbols? path := by
  cases operation with
  | put other symbols script => exact symbols?_put index other symbols script path
  | remove other => exact symbols?_erase index other path
  | removeUnder above => exact symbols?_removeUnder index above path

variable {index : Index} (valid : index.Valid)

include valid

/-- A change decides the script of the paths it touches and of no others. -/
theorem Valid.find?_apply_scripts (operation : Operation) (moment : Nat) (path : Path) :
    (operation.apply index).scripts.find? path =
      if operation.touches path then (operation.stored? moment).bind (·.script)
      else index.scripts.find? path := by
  cases operation with
  | put other symbols script => exact find?_put_scripts index other symbols script path
  | remove other => exact find?_erase_scripts index other path
  | removeUnder above => exact valid.find?_removeUnder_scripts above path

/-- A change strikes the paths it touches from every list, and adds at most one at the
end. -/
theorem Valid.declaring_apply (operation : Operation) (key : String) :
    (operation.apply index).declaring key =
      (index.declaring key).filter (fun path => !operation.touches path) ++
        operation.newcomers key := by
  have commuted (other : Path) :
      (fun path : Path => !(other == path)) = fun path => !(path == other) := by
    funext path
    rw [BEq.comm]
  cases operation with
  | put other symbols script =>
    simp only [Operation.apply, Operation.touches, Operation.newcomers, commuted]
    exact valid.declaring_put other symbols script key
  | remove other =>
    simp only [Operation.apply, Operation.touches, Operation.newcomers, commuted, List.append_nil]
    exact valid.declaring_erase other key
  | removeUnder above =>
    simp only [Operation.apply, Operation.touches, Operation.newcomers, List.append_nil]
    exact valid.declaring_removeUnder above key

end Effects

section History

/-- The last change counts if it touches the path, and otherwise nothing has happened. -/
theorem stored?_append (operations : List Operation) (operation : Operation) (path : Path) :
    stored? (operations ++ [operation]) path =
      if operation.touches path then operation.stored? operations.length
      else stored? operations path := by
  simp only [stored?, lastTouch?, List.zipIdx_append, List.reverse_append, List.zipIdx_singleton,
    List.reverse_singleton, List.singleton_append, List.find?_cons, Nat.zero_add]
  cases operation.touches path <;> rfl

/-- Equal paths have the same history. -/
theorem stored?_congr (operations : List Operation) {left right : Path} (same : left == right) :
    stored? operations left = stored? operations right := by
  simp only [stored?, lastTouch?, Operation.touches_congr _ same]

/-- Moments are places of the sequence. -/
theorem moment_lt_length (operations : List Operation) (path : Path) (stored : Stored)
    (live : stored? operations path = some stored) : stored.moment < operations.length := by
  induction operations using List.reverseRecOn with
  | nil => simp [stored?, lastTouch?] at live
  | append_singleton operations operation inductionHypothesis =>
    rw [stored?_append] at live
    rw [List.length_append, List.length_singleton]
    split at live
    · cases operation with
      | put other symbols script =>
        have same : ⟨operations.length, symbols, script⟩ = stored := Option.some.inj live
        rw [← same]
        exact Nat.lt_succ_self _
      | remove other => exact absurd live (by simp [Operation.stored?])
      | removeUnder above => exact absurd live (by simp [Operation.stored?])
    · exact Nat.lt_succ_of_lt (inductionHypothesis live)

/-- One live path was stored before another. -/
def Earlier (operations : List Operation) (first second : Path) : Prop :=
  ∀ before ∈ stored? operations first, ∀ later ∈ stored? operations second,
    before.moment < later.moment

/-- An index that answers as its history says. Besides the answers, the declaring files of
every key stand in the order of their moments; this is what makes the last of them the most
recent one, and it survives any striking of files. -/
structure Follows (index : Index) (operations : List Operation) : Prop where
  valid : index.Valid
  symbols : ∀ path, index.symbols? path = (stored? operations path).map (·.symbols)
  scripts : ∀ path, index.scripts.find? path = (stored? operations path).bind (·.script)
  ordered : ∀ key, (index.declaring key).Pairwise (Earlier operations)

/-- Without changes there is nothing to answer. -/
theorem empty_follows : Follows empty [] where
  valid := empty_valid
  symbols _ := rfl
  scripts _ := rfl
  ordered _ := List.Pairwise.nil

/-- The order of untouched paths does not change, and they all come before a path that is
stored now. -/
theorem Follows.ordered_apply {index : Index} {operations : List Operation}
    (follows : index.Follows operations) (operation : Operation) (key : String) :
    ((operation.apply index).declaring key).Pairwise (Earlier (operations ++ [operation])) := by
  have untouched {path : Path}
      (member : path ∈ (index.declaring key).filter (fun path => !operation.touches path)) :
      stored? (operations ++ [operation]) path = stored? operations path := by
    have kept : operation.touches path = false := by
      simpa using (List.mem_filter.mp member).2
    rw [stored?_append, kept]
    rfl
  rw [follows.valid.declaring_apply, List.pairwise_append]
  refine ⟨?_, ?_, ?_⟩
  · refine ((follows.ordered key).filter _).imp_of_mem ?_
    intro first second firstKept secondKept earlier
    rw [Earlier, untouched firstKept, untouched secondKept]
    exact earlier
  · unfold Operation.newcomers
    split
    · split <;> simp
    · exact List.Pairwise.nil
    · exact List.Pairwise.nil
  · intro first firstKept second isNew before beforeStored later laterStored
    rw [untouched firstKept] at beforeStored
    have bound : before.moment < operations.length :=
      moment_lt_length operations first before beforeStored
    cases operation with
    | put path symbols script =>
      have isPath : second = path := by
        simp only [Operation.newcomers] at isNew
        split at isNew
        · exact List.mem_singleton.mp isNew
        · exact absurd isNew List.not_mem_nil
      have touched : (Operation.put path symbols script).touches path = true := BEq.rfl
      rw [isPath, stored?_append, touched] at laterStored
      have same : ⟨operations.length, symbols, script⟩ = later := Option.some.inj laterStored
      rw [← same]
      exact bound
    | remove path => exact absurd isNew List.not_mem_nil
    | removeUnder above => exact absurd isNew List.not_mem_nil

/-- One more change and one more entry of the history go together. -/
theorem Follows.apply {index : Index} {operations : List Operation}
    (follows : index.Follows operations) (operation : Operation) :
    (operation.apply index).Follows (operations ++ [operation]) where
  valid := follows.valid.apply operation
  symbols path := by
    rw [symbols?_apply index operation operations.length, stored?_append, follows.symbols]
    split <;> rfl
  scripts path := by
    rw [follows.valid.find?_apply_scripts operation operations.length, stored?_append,
      follows.scripts]
    split <;> rfl
  ordered key := follows.ordered_apply operation key

/-- Every index that was built by changes from the empty one answers as its history
says. -/
theorem perform_follows (operations : List Operation) :
    (empty.perform operations).Follows operations := by
  induction operations using List.reverseRecOn with
  | nil => exact empty_follows
  | append_singleton operations operation inductionHypothesis =>
    rw [perform, List.foldl_append]
    exact inductionHypothesis.apply operation

end History

section Answers

/-- The most recent path that declares a key, with the script it declares. Every different
path that declares the key was stored before. -/
def MostRecent (operations : List Operation) (key : String) (path : Path) (script : Script) :
    Prop :=
  ∃ stored, stored? operations path = some stored ∧ stored.script = some script ∧
    Script.key script.name = key ∧
    ∀ other, (other == path) = false → Declares operations other key →
      ∃ before, stored? operations other = some before ∧ before.moment < stored.moment

variable {index : Index} {operations : List Operation} (follows : index.Follows operations)

include follows

/-- The list of a key holds the paths that declare it. -/
theorem Follows.contains_declaring (key : String) (path : Path) :
    (index.declaring key).contains path ↔ Declares operations path key := by
  rw [follows.valid.declared, follows.scripts]
  constructor
  · rintro ⟨script, found, same⟩
    obtain ⟨stored, live, present⟩ := Option.bind_eq_some_iff.mp found
    exact ⟨stored, script, live, present, same⟩
  · rintro ⟨stored, script, live, present, same⟩
    exact ⟨script, Option.bind_eq_some_iff.mpr ⟨stored, live, present⟩, same⟩

/-- A path that declares a key is the last of its list or was stored before the last. -/
theorem Follows.eq_or_earlier_of_getLast? {key : String} {last other : Path}
    (isLast : (index.declaring key).getLast? = some last)
    (declares : Declares operations other key) :
    other == last ∨ Earlier operations other last := by
  have listed := (follows.contains_declaring key other).mpr declares
  obtain ⟨spelled, member, same⟩ := List.contains_iff_exists_mem_beq.mp listed
  obtain ⟨earlier, split⟩ := List.getLast?_eq_some_iff.mp isLast
  have ordered := follows.ordered key
  rw [split, List.pairwise_append] at ordered
  rw [split, List.mem_append, List.mem_singleton] at member
  rcases member with isEarlier | isSpelled
  · refine Or.inr ?_
    have before := ordered.2.2 spelled isEarlier last (List.mem_singleton_self last)
    rwa [Earlier, stored?_congr operations same]
  · exact Or.inl (isSpelled ▸ same)

/-- A key is answered with the script of the most recent path that declares it.

The last path of the list declares the key, and every other one that does stands before it,
so it is the most recent. Conversely, a most recent path cannot stand before the last one:
each would have been stored before the other. -/
theorem Follows.scriptAt?_eq_some_iff (key : String) (script : Script) :
    index.scriptAt? key = some script ↔ ∃ path, MostRecent operations key path script := by
  constructor
  · intro answered
    rw [scriptAt?_eq] at answered
    obtain ⟨last, isLast, found⟩ := Option.bind_eq_some_iff.mp answered
    obtain ⟨other, otherFound, same, _⟩ := follows.valid.scriptAt?_of_getLast? isLast
    rw [found, Option.some.injEq] at otherFound
    rw [← otherFound] at same
    rw [follows.scripts] at found
    obtain ⟨stored, live, present⟩ := Option.bind_eq_some_iff.mp found
    refine ⟨last, stored, live, present, same, ?_⟩
    intro rival differs declares
    obtain ⟨before, rivalScript, rivalLive, _, _⟩ := declares
    refine ⟨before, rivalLive, ?_⟩
    rcases follows.eq_or_earlier_of_getLast? isLast ⟨before, rivalScript, rivalLive, ‹_›, ‹_›⟩
      with equal | earlier
    · rw [equal] at differs
      exact Bool.noConfusion differs
    · exact earlier before rivalLive stored live
  · rintro ⟨path, stored, live, present, same, mostRecent⟩
    have declares : Declares operations path key := ⟨stored, script, live, present, same⟩
    have listed := (follows.contains_declaring key path).mpr declares
    have nonempty : index.declaring key ≠ [] := by
      intro vacant
      rw [vacant] at listed
      exact Bool.noConfusion listed
    obtain ⟨last, isLast⟩ := Option.isSome_iff_exists.mp (List.getLast?_isSome.mpr nonempty)
    have isPath : last == path := by
      by_contra differs
      rw [Bool.not_eq_true] at differs
      have lastDeclares := (follows.contains_declaring key last).mp
        (List.elem_eq_true_of_mem (List.mem_of_getLast? isLast))
      obtain ⟨before, lastLive, lastEarlier⟩ := mostRecent last differs lastDeclares
      rcases follows.eq_or_earlier_of_getLast? isLast declares with equal | pathEarlier
      · rw [BEq.comm, equal] at differs
        exact Bool.noConfusion differs
      · have pathBefore := pathEarlier stored live before lastLive
        omega
    rw [scriptAt?_eq, isLast, Option.bind_some, Table.find?_congr _ isPath, follows.scripts, live]
    exact present

/-- A key is known exactly when some live path declares it. -/
theorem Follows.contains_declarers (key : String) :
    index.declarers.contains key ↔ ∃ path, Declares operations path key := by
  rw [follows.valid.contains_declarers]
  constructor
  · intro nonempty
    obtain ⟨path, member⟩ := List.exists_mem_of_ne_nil _ nonempty
    exact ⟨path, (follows.contains_declaring key path).mp (List.elem_eq_true_of_mem member)⟩
  · rintro ⟨path, declares⟩ vacant
    have listed := (follows.contains_declaring key path).mpr declares
    rw [vacant] at listed
    exact Bool.noConfusion listed

/-- A key is left unanswered exactly when no live path declares it. -/
theorem Follows.scriptAt?_eq_none_iff (key : String) :
    index.scriptAt? key = none ↔ ∀ path, ¬ Declares operations path key := by
  constructor
  · intro unanswered path declares
    have known := (follows.contains_declarers key).mpr ⟨path, declares⟩
    obtain ⟨_, script, _, _, answered⟩ := follows.valid.exists_scriptAt? known
    rw [unanswered] at answered
    exact Option.some_ne_none script answered.symm
  · intro undeclared
    refine follows.valid.scriptAt?_eq_none ?_
    intro path script found same
    have listed := (follows.valid.declared key path).mpr ⟨script, found, same⟩
    exact undeclared path ((follows.contains_declaring key path).mp listed)

/-- As many files are counted as there are different live paths. -/
theorem Follows.fileCount_eq : index.fileCount =
    Set.ncard {components | ∃ path : Path,
      path.components = components ∧ (stored? operations path).isSome} := by
  have live (path : Path) : index.files.contains path = (stored? operations path).isSome := by
    have known := congrArg Option.isSome (follows.symbols path)
    rw [Option.isSome_map] at known
    rw [Table.contains_eq_isSome]
    exact known
  rw [fileCount, Table.size_eq_ncard Path.components Path.beq_iff_components]
  simp only [live]

/-- As many scripts are counted as there are different declared keys. -/
theorem Follows.scriptCount_eq : index.scriptCount =
    Set.ncard {key | ∃ path, Declares operations path key} := by
  rw [scriptCount, Table.size_eq_ncard id fun left right => beq_iff_eq]
  simp only [id_eq, exists_eq_left, follows.contains_declarers]

end Answers

/-- Every answer of an index that was built by changes from the empty one, from the changes
alone.

A name is answered with the script of the most recent path that declares its key, and with
nothing when no live path declares it. A live path has the symbols it was stored with last
and any other path has none. Files are counted by live paths, up to spelling, and scripts by
declared keys. -/
theorem answers_determined_by_history (operations : List Operation) :
    let index := empty.perform operations
    (∀ name script, index.script? name = some script ↔
      ∃ path, MostRecent operations (Script.key name) path script) ∧
    (∀ name, index.script? name = none ↔ ∀ path, ¬ Declares operations path (Script.key name)) ∧
    (∀ path, index.symbols? path = (stored? operations path).map (·.symbols)) ∧
    index.fileCount = Set.ncard {components | ∃ path : Path,
      path.components = components ∧ (stored? operations path).isSome} ∧
    index.scriptCount = Set.ncard {key | ∃ path, Declares operations path key} := by
  intro index
  have follows : index.Follows operations := perform_follows operations
  exact ⟨fun name script => follows.scriptAt?_eq_some_iff (Script.key name) script,
    fun name => follows.scriptAt?_eq_none_iff (Script.key name),
    follows.symbols, follows.fileCount_eq, follows.scriptCount_eq⟩

end Papyrus.Index
