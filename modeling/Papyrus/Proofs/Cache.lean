import Papyrus.Cache
import Papyrus.Proofs.Path
import Papyrus.Proofs.Table

/-!
# The cache as a function of its history

The cache keeps no history, only one entry for each remembered file. What it remembers of a
path is decided by the last change that touches the path. If that change stored it, its time
and its symbols are remembered. If that change removed it, alone or with everything below some
path above it, or if no change touches it at all, nothing is remembered.

A change touches what a path names and not a spelling of it. The entry keeps the spelling that
came in first, and no answer shows it. Remembered files are counted by what their paths name,
so that two spellings of one path count once.
-/
namespace Papyrus.Cache

section Answers

/-- What is remembered of a file is what was stored last. -/
theorem find?_store (cache : Cache) (path other : Path) (modified : Timestamp)
    (symbols : List Symbol) :
    (cache.store path modified symbols).entries.find? other =
      if path == other then some ⟨modified, symbols⟩ else cache.entries.find? other :=
  Table.find?_insert cache.entries path other ⟨modified, symbols⟩

/-- A removed file is not remembered any more. -/
theorem find?_remove (cache : Cache) (path other : Path) :
    (cache.remove path).2.entries.find? other =
      if path == other then none else cache.entries.find? other :=
  Table.find?_erase cache.entries path other

/-- Nothing at or below the path is remembered any more. -/
theorem find?_removeUnder (cache : Cache) (above other : Path) :
    (cache.removeUnder above).2.entries.find? other =
      if other.startsWith above then none else cache.entries.find? other :=
  Table.find?_eraseIf cache.entries (·.startsWith above) other fun _ _ same =>
    Path.startsWith_congr same above

/-- The files that go with a path and those that stay are all the files. -/
theorem removeUnder_fst_add_size (cache : Cache) (above : Path) :
    (cache.removeUnder above).1 + (cache.removeUnder above).2.size = cache.size := by
  have fewer : (cache.removeUnder above).2.size ≤ cache.size :=
    List.length_filter_le _ cache.entries.entries
  exact Nat.sub_add_cancel fewer

/-- A file is up to date exactly at the time that is remembered with it. -/
theorem isStale_eq_false_iff (cache : Cache) (path : Path) (modified : Timestamp) :
    cache.isStale path modified = false ↔
      ∃ symbols, cache.entries.find? path = some ⟨modified, symbols⟩ := by
  unfold isStale
  cases cache.entries.find? path with
  | none => simp
  | some entry =>
    obtain ⟨remembered, symbols⟩ := entry
    simp

/-- Equal paths are up to date at the same times. -/
theorem isStale_congr (cache : Cache) {path other : Path} (same : path == other)
    (time : Timestamp) : cache.isStale path time = cache.isStale other time := by
  rw [isStale, isStale, Table.find?_congr cache.entries same]

/-- A file that was stored is up to date at its time, under every spelling. Nothing changes for
other files. -/
theorem isStale_store (cache : Cache) {path other : Path} (modified time : Timestamp)
    (symbols : List Symbol) :
    (cache.store other modified symbols).isStale path time =
      if other == path then decide (modified ≠ time) else cache.isStale path time := by
  rw [isStale, find?_store]
  by_cases same : other == path <;> simp [same, isStale]

end Answers

section Runs

/-- A change of the cache. -/
inductive Operation where
  | store (path : Path) (modified : Timestamp) (symbols : List Symbol)
  | remove (path : Path)
  | removeUnder (above : Path)
  deriving Repr

namespace Operation

/-- The cache after a change. -/
def apply (cache : Cache) : Operation → Cache
  | .store path modified symbols => cache.store path modified symbols
  | .remove path => (cache.remove path).2
  | .removeUnder above => (cache.removeUnder above).2

/-- Whether a change is about what a path names: whether it stores or removes just that, or
removes everything from some beginning of it on. -/
def Touches (path : Path) : Operation → Prop
  | .store other _ _ | .remove other => other.components = path.components
  | .removeUnder above => above.components <+: path.components

instance (path : Path) : DecidablePred (Touches path)
  | .store _ _ _ | .remove _ => inferInstanceAs (Decidable (_ = _))
  | .removeUnder _ => inferInstanceAs (Decidable (_ <+: _))

/-- What a change leaves behind for the paths it touches. -/
def entry? : Operation → Option Entry
  | .store _ modified symbols => some ⟨modified, symbols⟩
  | .remove _ | .removeUnder _ => none

/-- A change decides what is remembered of the paths it touches, and of no others. -/
theorem find?_apply (cache : Cache) (operation : Operation) (path : Path) :
    (operation.apply cache).entries.find? path =
      if operation.Touches path then operation.entry? else cache.entries.find? path := by
  cases operation with
  | store other modified symbols =>
    rw [apply, find?_store]
    exact if_congr (Path.beq_iff_components other path) rfl rfl
  | remove other =>
    rw [apply, find?_remove]
    exact if_congr (Path.beq_iff_components other path) rfl rfl
  | removeUnder above =>
    rw [apply, find?_removeUnder]
    exact if_congr (Path.startsWith_iff path above) rfl rfl

end Operation

/-- The cache after some changes, the first of them first. -/
def perform (cache : Cache) (operations : List Operation) : Cache :=
  operations.foldl Operation.apply cache

/-- The last change that touches a path. -/
def lastTouch? (operations : List Operation) (path : Path) : Option Operation :=
  operations.reverse.find? fun operation => operation.Touches path

/-- One more change is the last one for the paths it touches. -/
theorem lastTouch?_concat (operations : List Operation) (operation : Operation) (path : Path) :
    lastTouch? (operations ++ [operation]) path =
      if operation.Touches path then some operation else lastTouch? operations path := by
  rw [lastTouch?, List.reverse_append, List.reverse_singleton, List.singleton_append,
    List.find?_cons]
  by_cases touched : operation.Touches path <;> simp [touched, lastTouch?]

/-- In a cache that was built by changes from the empty one, what is remembered of a path is
what the last change that touches it left behind. -/
theorem find?_perform (operations : List Operation) (path : Path) :
    (empty.perform operations).entries.find? path =
      (lastTouch? operations path).bind Operation.entry? := by
  induction operations using List.reverseRecOn with
  | nil => rfl
  | append_singleton operations operation inductionHypothesis =>
    rw [perform, List.foldl_append, List.foldl_cons, List.foldl_nil, Operation.find?_apply,
      lastTouch?_concat]
    split
    · rfl
    · exact inductionHypothesis

/-- An entry is remembered exactly when the last change that touches the path stored it. -/
theorem find?_perform_eq_some_iff (operations : List Operation) (path : Path)
    (modified : Timestamp) (symbols : List Symbol) :
    (empty.perform operations).entries.find? path = some ⟨modified, symbols⟩ ↔
      ∃ spelled, lastTouch? operations path = some (.store spelled modified symbols) := by
  rw [find?_perform, Option.bind_eq_some_iff]
  constructor
  · rintro ⟨operation, last, left⟩
    cases operation with
    | store spelled time stored =>
      simp only [Operation.entry?, Option.some.injEq, Entry.mk.injEq] at left
      obtain ⟨rfl, rfl⟩ := left
      exact ⟨spelled, last⟩
    | remove other => exact absurd left (by simp [Operation.entry?])
    | removeUnder above => exact absurd left (by simp [Operation.entry?])
  · rintro ⟨spelled, last⟩
    exact ⟨.store spelled modified symbols, last, rfl⟩

/-- Something is remembered exactly when the last change that touches the path stored it. -/
theorem contains_perform (operations : List Operation) (path : Path) :
    (empty.perform operations).entries.contains path ↔
      ∃ spelled modified symbols,
        lastTouch? operations path = some (.store spelled modified symbols) := by
  rw [Table.contains_eq_isSome, Option.isSome_iff_exists]
  constructor
  · rintro ⟨⟨modified, symbols⟩, found⟩
    obtain ⟨spelled, last⟩ := (find?_perform_eq_some_iff operations path _ _).mp found
    exact ⟨spelled, modified, symbols, last⟩
  · rintro ⟨spelled, modified, symbols, last⟩
    exact ⟨_, (find?_perform_eq_some_iff operations path _ _).mpr ⟨spelled, last⟩⟩

/-- What is named by the paths whose last change stored them. -/
def stored (operations : List Operation) : Set (List Component) :=
  {components | ∃ path : Path, path.components = components ∧
    ∃ spelled modified symbols,
      lastTouch? operations path = some (.store spelled modified symbols)}

/-- As many files are remembered as are named by the paths whose last change stored them. -/
theorem size_perform (operations : List Operation) :
    ((empty.perform operations).size : ℕ∞) = (stored operations).encard := by
  rw [size, Table.size_eq_encard Path.components Path.beq_iff_components, stored]
  simp only [contains_perform]

/-- Every answer of a cache that was built by changes from the empty one, from the changes
alone.

A file is up to date at a time exactly when the last change that touches its path stored it at
just that time, be it older or newer than the times before. Its symbols are those stored then;
without such a change there are none. Files are counted by what their paths name, and a
removal of everything below a path reports by how much this number goes down. -/
theorem determined_by_last_touches (operations : List Operation) :
    let cache := empty.perform operations
    (∀ path time, cache.isStale path time = false ↔
      ∃ spelled symbols, lastTouch? operations path = some (.store spelled time symbols)) ∧
    (∀ path symbols, cache.symbols? path = some symbols ↔
      ∃ spelled time, lastTouch? operations path = some (.store spelled time symbols)) ∧
    (∀ path, cache.symbols? path = none ↔
      ∀ spelled time symbols, lastTouch? operations path ≠ some (.store spelled time symbols)) ∧
    cache.size = (stored operations).encard ∧
    (∀ above, (stored operations).encard =
      (cache.removeUnder above).1 + (stored (operations ++ [.removeUnder above])).encard) := by
  intro cache
  have found := find?_perform_eq_some_iff operations
  refine ⟨?_, ?_, ?_, size_perform operations, ?_⟩
  · intro path time
    rw [isStale_eq_false_iff, exists_comm]
    exact exists_congr fun symbols => found path time symbols
  · intro path symbols
    rw [symbols?, Option.map_eq_some_iff]
    constructor
    · rintro ⟨⟨time, remembered⟩, isRemembered, rfl⟩
      obtain ⟨spelled, last⟩ := (found path time remembered).mp isRemembered
      exact ⟨spelled, time, last⟩
    · rintro ⟨spelled, time, last⟩
      exact ⟨⟨time, symbols⟩, (found path time symbols).mpr ⟨spelled, last⟩, rfl⟩
  · intro path
    rw [symbols?, Option.map_eq_none_iff, ← Option.not_isSome_iff_eq_none,
      ← Table.contains_eq_isSome, contains_perform]
    simp only [not_exists, ne_eq]
  · intro above
    have after : (cache.removeUnder above).2 =
        empty.perform (operations ++ [.removeUnder above]) := by
      rw [perform, List.foldl_append]
      rfl
    rw [← size_perform, ← size_perform, ← after, ← Nat.cast_add, removeUnder_fst_add_size]

/-- An older time that was stored last is the one that counts, under every spelling. A path
whose text only begins another one does not lie above it. -/
example :
    let stored := (empty.store ⟨"/a/B.psc"⟩ ⟨5⟩ []).store ⟨"/a//./B.psc"⟩ ⟨3⟩ []
    let (count, kept) := stored.removeUnder ⟨"/a/B"⟩
    count = 0 ∧ kept.size = 1 ∧ kept.isStale ⟨"/a/B.psc/"⟩ ⟨3⟩ = false ∧
      kept.isStale ⟨"/a/B.psc"⟩ ⟨5⟩ = true := by
  decide

end Runs

end Papyrus.Cache
