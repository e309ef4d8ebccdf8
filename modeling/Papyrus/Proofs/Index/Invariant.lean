import Mathlib
import Papyrus.Index
import Papyrus.Proofs.Path
import Papyrus.Proofs.Table

/-!
# The invariant of the index

An index keeps three tables that have to move together. It is read through three views:
the symbols of a file, the script of a file, and the files that declare a key. Under the
invariant each operation has one simple effect on each view: it replaces or drops what one
path, or every path below another, is answered, and strikes the same paths from all lists
of declaring files at once.

Striking from all lists is what the invariant is for. The operations strike a path only
from the list of the script that it declares; that no other list holds it, and that no
empty list is left behind, is part of what every run preserves.
-/
namespace Papyrus

/-- A key is its own key. -/
theorem Script.key_key (name : String) : key (key name) = key name := by
  simp only [key, Text.foldCase, String.toList_ofList, List.map_map, Function.comp_def,
    Char.toLower_toLower_eq_toLower]

namespace Index

/-- The files that declare a key, the one indexed last at the end. -/
def declaring (index : Index) (key : String) : List Path :=
  (index.declarers.find? key).getD []

/-- The three tables agree. Declaring files are compared as paths, not by spelling. -/
structure Valid (index : Index) : Prop where
  /-- A file that is not indexed has no script. -/
  indexed : ∀ path, index.symbols? path = none → index.scripts.find? path = none
  /-- A key lists exactly the files whose script has it. -/
  declared : ∀ key path, (index.declaring key).contains path ↔
    ∃ script, index.scripts.find? path = some script ∧ Script.key script.name = key
  /-- No file is listed twice under a key. -/
  once : ∀ key, (index.declaring key).Pairwise fun first second => (first == second) = false
  /-- A key is kept only while some file declares it. -/
  occupied : ∀ key, index.declarers.find? key ≠ some []

/-- The empty index meets the invariant. -/
theorem empty_valid : Valid empty where
  indexed path unknown := rfl
  declared key path := by simp [empty, declaring]
  once key := by simp [empty, declaring]
  occupied key := by simp [empty]

/-- Striking a file leaves the other files of that key in their order, and every other key
as it was. -/
theorem getD_find?_withdraw (declarers : Table String (List Path)) (key other : String)
    (path : Path) :
    ((withdraw declarers key path).find? other).getD [] =
      if key = other then ((declarers.find? other).getD []).filter (fun file => !(file == path))
      else (declarers.find? other).getD [] := by
  by_cases same : key = other
  · subst same
    unfold withdraw
    cases found : declarers.find? key with
    | none => simp [found]
    | some paths =>
      simp only [if_true, Option.getD_some]
      split
      next struck => simp [Table.find?_erase, struck]
      next rest => simp [Table.find?_insert]
  · unfold withdraw
    cases declarers.find? key with
    | none => simp [same]
    | some paths =>
      dsimp only
      split <;> simp [Table.find?_erase, Table.find?_insert, same]

/-- Striking a file leaves no key without files. -/
theorem withdraw_occupied (declarers : Table String (List Path)) (key : String) (path : Path)
    (occupied : ∀ key, declarers.find? key ≠ some []) (other : String) :
    (withdraw declarers key path).find? other ≠ some [] := by
  unfold withdraw
  cases declarers.find? key with
  | none => exact occupied other
  | some paths =>
    dsimp only
    split
    next =>
      rw [Table.find?_erase]
      split
      · simp
      · exact occupied other
    next rest nonempty =>
      rw [Table.find?_insert]
      split
      · simpa using nonempty
      · exact occupied other

section Release

/-- Taking a script back leaves the symbols of all files alone. -/
@[simp]
theorem release_files (index : Index) (path : Path) : (index.release path).files = index.files := by
  unfold release
  split <;> rfl

/-- The file whose script is taken back has none; the others keep theirs. -/
theorem find?_release_scripts (index : Index) (path other : Path) :
    (index.release path).scripts.find? other =
      if path == other then none else index.scripts.find? other := by
  unfold release
  split
  next missing =>
    split
    next same => rw [← Table.find?_congr index.scripts same, missing]
    next => rfl
  next script found => exact Table.find?_erase index.scripts path other

/-- Under the invariant, taking a script back strikes the file from every list: it stands
in the list of its own script's key only. -/
theorem Valid.declaring_release {index : Index} (valid : index.Valid) (path : Path)
    (key : String) : (index.release path).declaring key =
      (index.declaring key).filter (fun other => !(other == path)) := by
  have absent_of (differs : ∀ script, index.scripts.find? path = some script →
      Script.key script.name ≠ key) : (index.declaring key).contains path = false := by
    rw [← Bool.not_eq_true, valid.declared]
    rintro ⟨script, found, same⟩
    exact differs script found same
  unfold release
  split
  next missing =>
    rw [Path.filter_ne_of_not_contains _ path (absent_of (by simp [missing]))]
  next script found =>
    simp only [declaring, getD_find?_withdraw]
    split
    next => rfl
    next differs =>
      refine (Path.filter_ne_of_not_contains _ path (absent_of ?_)).symm
      intro other same
      rw [found, Option.some.injEq] at same
      exact same ▸ differs

/-- Taking a script back keeps the invariant. -/
theorem Valid.release {index : Index} (valid : index.Valid) (path : Path) :
    (index.release path).Valid where
  indexed other unknown := by
    rw [symbols?, release_files] at unknown
    rw [find?_release_scripts, valid.indexed other unknown, ite_self]
  declared key other := by
    rw [valid.declaring_release, Path.contains_filter _ _ _ fun left right same => by
      rw [BEq.congr_left same], find?_release_scripts, Bool.and_eq_true, valid.declared,
      BEq.comm]
    by_cases same : path == other <;> simp [same]
  once key := by
    rw [valid.declaring_release]
    exact (valid.once key).filter _
  occupied key := by
    unfold Index.release
    split
    · exact valid.occupied key
    · exact withdraw_occupied index.declarers _ path valid.occupied key

end Release

section Put

variable (index : Index) (path : Path) (symbols : List Symbol) (script : Option Script)

/-- The symbols of a file are those stored last. -/
theorem symbols?_put (other : Path) :
    (index.put path symbols script).symbols? other =
      if path == other then some symbols else index.symbols? other := by
  cases script <;> simp [put, declare, symbols?, Table.find?_insert]

/-- Storing a file that was not known makes one file more. -/
theorem fileCount_put : (index.put path symbols script).fileCount =
    if (index.symbols? path).isSome then index.fileCount else index.fileCount + 1 := by
  rw [symbols?, ← Table.contains_eq_isSome, fileCount, fileCount, ← Table.size_insert _ _ symbols]
  cases script <;> simp [put, declare]

/-- The script of a file is the one stored last, which may be none. -/
theorem find?_put_scripts (other : Path) :
    (index.put path symbols script).scripts.find? other =
      if path == other then script else index.scripts.find? other := by
  cases script with
  | none => simp [put, find?_release_scripts]
  | some script =>
    simp only [put, declare, Table.find?_insert, find?_release_scripts]
    split <;> rfl

variable {index}

/-- A stored file moves to the end of the list of its script's key and leaves any other. -/
theorem Valid.declaring_put (valid : index.Valid) (key : String) :
    (index.put path symbols script).declaring key =
      (index.declaring key).filter (fun other => !(other == path)) ++
        if script.any (fun script => Script.key script.name == key) then [path] else [] := by
  have released := valid.declaring_release path
  simp only [declaring] at released
  cases script with
  | none => simp [put, declaring, released]
  | some script =>
    simp only [put, declare, declaring, Table.find?_insert, Option.any_some]
    split
    next same =>
      rw [Option.getD_some, eq_of_beq same, released]
    next => rw [released, List.append_nil]

/-- Storing a file keeps the invariant. The list that the file joins no longer holds it. -/
theorem Valid.put (valid : index.Valid) : (index.put path symbols script).Valid where
  indexed other unknown := by
    rw [symbols?_put] at unknown
    rw [find?_put_scripts]
    by_cases same : path == other
    · simp [same] at unknown
    · simp only [same, Bool.false_eq_true, if_false] at unknown ⊢
      exact valid.indexed other unknown
  declared key other := by
    rw [valid.declaring_put, find?_put_scripts, List.contains_append, Bool.or_eq_true,
      Path.contains_filter _ _ _ fun left right same => by rw [BEq.congr_left same],
      Bool.and_eq_true, valid.declared, BEq.comm]
    have joins (script : Script) :
        (if Script.key script.name = key then [path] else []).contains other ↔
          Script.key script.name = key ∧ path == other := by
      split <;> simp [*, BEq.comm]
    by_cases same : path == other <;> cases script <;> simp [same, joins]
  once key := by
    rw [valid.declaring_put, List.pairwise_append]
    refine ⟨(valid.once key).filter _, by split <;> simp, ?_⟩
    intro other kept added isNew
    have isPath : added = path := by
      split at isNew
      · exact List.mem_singleton.mp isNew
      · exact absurd isNew List.not_mem_nil
    rw [isPath]
    simpa using (List.mem_filter.mp kept).2
  occupied key := by
    have released := (valid.release path).occupied key
    cases script with
    | none => exact released
    | some script =>
      simp only [Index.put, declare, Table.find?_insert]
      split
      · simp
      · exact released

end Put

section Erase

variable (index : Index) (path : Path)

/-- A forgotten file has no symbols. -/
theorem symbols?_erase (other : Path) :
    (index.erase path).symbols? other =
      if path == other then none else index.symbols? other := by
  simp [erase, symbols?, Table.find?_erase]

/-- A forgotten file has no script. -/
theorem find?_erase_scripts (other : Path) :
    (index.erase path).scripts.find? other =
      if path == other then none else index.scripts.find? other :=
  find?_release_scripts index path other

variable {index}

/-- A forgotten file declares nothing. -/
theorem Valid.declaring_erase (valid : index.Valid) (key : String) :
    (index.erase path).declaring key =
      (index.declaring key).filter (fun other => !(other == path)) :=
  valid.declaring_release path key

/-- Forgetting a file keeps the invariant: its script went with its symbols. -/
theorem Valid.erase (valid : index.Valid) : (index.erase path).Valid where
  indexed other unknown := by
    rw [symbols?_erase] at unknown
    rw [find?_erase_scripts]
    split at unknown
    next same => rw [if_pos same]
    next differs => rw [if_neg differs, valid.indexed other unknown]
  declared := (valid.release path).declared
  once := (valid.release path).once
  occupied := (valid.release path).occupied

end Erase

section RemoveAll

/-- Forgotten files have no symbols, whichever of them were known. -/
theorem symbols?_removeAll (index : Index) (paths : List Path) (other : Path) :
    (index.removeAll paths).2.symbols? other =
      if paths.contains other then none else index.symbols? other := by
  induction paths generalizing index with
  | nil => simp [removeAll]
  | cons path rest inductionHypothesis =>
    simp only [removeAll, remove, inductionHypothesis, symbols?_erase, List.contains_cons,
      BEq.comm (a := other)]
    cases rest.contains other <;> cases path == other <;> rfl

/-- Forgotten files have no scripts. -/
theorem find?_removeAll_scripts (index : Index) (paths : List Path) (other : Path) :
    (index.removeAll paths).2.scripts.find? other =
      if paths.contains other then none else index.scripts.find? other := by
  induction paths generalizing index with
  | nil => simp [removeAll]
  | cons path rest inductionHypothesis =>
    simp only [removeAll, remove, inductionHypothesis, find?_erase_scripts, List.contains_cons,
      BEq.comm (a := other)]
    cases rest.contains other <;> cases path == other <;> rfl

/-- Forgetting files one after the other keeps the invariant. -/
theorem Valid.removeAll {index : Index} (valid : index.Valid) (paths : List Path) :
    (index.removeAll paths).2.Valid := by
  induction paths generalizing index with
  | nil => exact valid
  | cons path rest inductionHypothesis => exact inductionHypothesis (valid.erase path)

/-- Forgotten files are struck from every list, and the others keep their order. -/
theorem Valid.declaring_removeAll {index : Index} (valid : index.Valid) (paths : List Path)
    (key : String) : (index.removeAll paths).2.declaring key =
      (index.declaring key).filter (fun other => !paths.contains other) := by
  induction paths generalizing index with
  | nil => simp [Index.removeAll]
  | cons path rest inductionHypothesis =>
    simp only [Index.removeAll, remove]
    rw [inductionHypothesis (valid.erase path), valid.declaring_erase, List.filter_filter]
    congr 1
    funext other
    rw [List.contains_cons, Bool.not_or, Bool.and_comm]

/-- Every one of some different known files is counted: forgetting one of them leaves the
others known. -/
theorem count_removeAll (index : Index) (paths : List Path)
    (distinct : paths.Pairwise fun first second => (first == second) = false)
    (known : ∀ path ∈ paths, index.files.contains path) :
    (index.removeAll paths).1 = paths.length := by
  induction paths generalizing index with
  | nil => rfl
  | cons path rest inductionHypothesis =>
    have restKnown : ∀ other ∈ rest, (index.erase path).files.contains other := by
      intro other member
      have differs : (path == other) = false := List.rel_of_pairwise_cons distinct member
      have unchanged := symbols?_erase index path other
      rw [symbols?, differs] at unchanged
      rw [Table.contains_eq_isSome, unchanged]
      have stays := known other (List.mem_cons_of_mem path member)
      rwa [Table.contains_eq_isSome] at stays
    simp only [removeAll, remove, known path List.mem_cons_self, Bool.toNat_true,
      inductionHypothesis (index.erase path) distinct.of_cons restKnown, List.length_cons]
    omega

end RemoveAll

section RemoveUnder

variable {index : Index} (valid : index.Valid) (above : Path)

/-- The files to forget are the known ones at or below the path. -/
theorem contains_filesUnder (index : Index) (above path : Path) :
    (index.filesUnder above).contains path =
      ((index.symbols? path).isSome && path.startsWith above) := by
  rw [filesUnder, Path.contains_filter _ _ _ fun left right same =>
    Path.startsWith_congr same above, Table.contains_keys, Table.contains_eq_isSome, symbols?]

/-- Nothing at or below the path has symbols any more. -/
theorem symbols?_removeUnder (index : Index) (above other : Path) :
    (index.removeUnder above).2.symbols? other =
      if other.startsWith above then none else index.symbols? other := by
  rw [removeUnder, symbols?_removeAll, contains_filesUnder]
  cases index.symbols? other <;> simp

include valid

/-- Nothing at or below the path has a script any more. -/
theorem Valid.find?_removeUnder_scripts (other : Path) :
    (index.removeUnder above).2.scripts.find? other =
      if other.startsWith above then none else index.scripts.find? other := by
  rw [removeUnder, find?_removeAll_scripts, contains_filesUnder]
  cases known : index.symbols? other with
  | none => simp [valid.indexed other known]
  | some symbols => simp

/-- A path with a script is indexed. -/
theorem Valid.isSome_symbols? {path : Path} {script : Script}
    (found : index.scripts.find? path = some script) : (index.symbols? path).isSome := by
  rw [Option.isSome_iff_ne_none]
  intro unknown
  rw [valid.indexed path unknown] at found
  exact Option.some_ne_none script found.symm

/-- Everything at or below the path is struck from every list. A path that was not indexed
stood in none. -/
theorem Valid.declaring_removeUnder (key : String) :
    (index.removeUnder above).2.declaring key =
      (index.declaring key).filter (fun other => !other.startsWith above) := by
  rw [removeUnder, valid.declaring_removeAll]
  refine List.filter_congr fun other member => ?_
  have listed : (index.declaring key).contains other := List.elem_eq_true_of_mem member
  obtain ⟨script, found, _⟩ := (valid.declared key other).mp listed
  rw [contains_filesUnder, valid.isSome_symbols? found, Bool.true_and]

/-- Forgetting everything at or below a path keeps the invariant. -/
theorem Valid.removeUnder : (index.removeUnder above).2.Valid :=
  valid.removeAll (index.filesUnder above)

omit valid in
/-- As many files are reported as there were at or below the path. -/
theorem count_removeUnder (index : Index) (above : Path) :
    (index.removeUnder above).1 = (index.filesUnder above).length := by
  refine count_removeAll index (index.filesUnder above) ?_ ?_
  · exact ((List.pairwise_map).mpr index.files.distinct).filter _
  · intro path member
    have listed : (index.filesUnder above).contains path := List.elem_eq_true_of_mem member
    rw [contains_filesUnder, Bool.and_eq_true] at listed
    rw [Table.contains_eq_isSome]
    exact listed.1

omit valid in
/-- The reported files and those that stay are all the files. -/
theorem removeUnder_fst_add_fileCount (index : Index) (above : Path) :
    (index.removeUnder above).1 + (index.removeUnder above).2.fileCount = index.fileCount := by
  have staying : (index.removeUnder above).2.fileCount =
      (index.files.eraseIf (·.startsWith above)).size := by
    refine Table.size_congr Path.components Path.beq_iff_components _ _ fun path => ?_
    rw [Table.contains_eq_isSome, Table.contains_eq_isSome,
      Table.find?_eraseIf _ _ _ fun _ _ same => Path.startsWith_congr same above]
    exact congrArg Option.isSome (symbols?_removeUnder index above path)
  rw [count_removeUnder, staying, filesUnder, Table.keys, List.filter_map, List.length_map]
  exact (List.length_eq_length_filter_add _).symm

end RemoveUnder

section Answers

/-- A key is answered with the script of the last file that declares it. -/
theorem scriptAt?_eq (index : Index) (key : String) :
    index.scriptAt? key = (index.declaring key).getLast?.bind index.scripts.find? := by
  unfold scriptAt? declaring
  cases index.declarers.find? key <;> rfl

variable {index : Index} (valid : index.Valid)

include valid

/-- The last declaring file answers, with a script that has the key. -/
theorem Valid.scriptAt?_of_getLast? {key : String} {path : Path}
    (last : (index.declaring key).getLast? = some path) :
    ∃ script, index.scripts.find? path = some script ∧ Script.key script.name = key ∧
      index.scriptAt? key = some script := by
  have listed : (index.declaring key).contains path :=
    List.elem_eq_true_of_mem (List.mem_of_getLast? last)
  obtain ⟨script, found, same⟩ := (valid.declared key path).mp listed
  refine ⟨script, found, same, ?_⟩
  rw [scriptAt?_eq, last, Option.bind_some, found]

/-- A key is known exactly while some file declares it. -/
theorem Valid.contains_declarers (key : String) :
    index.declarers.contains key ↔ index.declaring key ≠ [] := by
  rw [Table.contains_eq_isSome, declaring]
  have occupied := valid.occupied key
  cases found : index.declarers.find? key with
  | none => simp
  | some paths =>
    rw [found] at occupied
    simpa using occupied

/-- A known key is answered. -/
theorem Valid.exists_scriptAt? {key : String} (known : index.declarers.contains key) :
    ∃ path script, index.scripts.find? path = some script ∧ Script.key script.name = key ∧
      index.scriptAt? key = some script := by
  have nonempty := (valid.contains_declarers key).mp known
  obtain ⟨path, last⟩ := Option.isSome_iff_exists.mp (List.getLast?_isSome.mpr nonempty)
  exact ⟨path, valid.scriptAt?_of_getLast? last⟩

/-- A key that some script has is answered. -/
theorem Valid.exists_scriptAt?_of_find? {path : Path} {script : Script}
    (found : index.scripts.find? path = some script) :
    ∃ other answer, index.scripts.find? other = some answer ∧
      Script.key answer.name = Script.key script.name ∧
      index.scriptAt? (Script.key script.name) = some answer := by
  have listed := (valid.declared (Script.key script.name) path).mpr ⟨script, found, rfl⟩
  refine valid.exists_scriptAt? ((valid.contains_declarers _).mpr fun nobody => ?_)
  rw [nobody] at listed
  exact Bool.noConfusion listed

/-- A key that no script has is not answered. -/
theorem Valid.scriptAt?_eq_none {key : String}
    (undeclared : ∀ path script, index.scripts.find? path = some script →
      Script.key script.name ≠ key) : index.scriptAt? key = none := by
  have nobody : index.declaring key = [] := by
    rw [List.eq_nil_iff_forall_not_mem]
    intro path member
    obtain ⟨script, found, same⟩ :=
      (valid.declared key path).mp (List.elem_eq_true_of_mem member)
    exact undeclared path script found same
  rw [scriptAt?_eq, nobody]
  rfl

/-- Where the files have the same scripts, a key that at most one file declares has the same
answer, in whatever order the files came to be indexed. -/
theorem Valid.scriptAt?_eq_of_scripts {other : Index} (otherValid : other.Valid)
    (same : ∀ path, index.scripts.find? path = other.scripts.find? path) {key : String}
    (alone : ∀ first second firstScript secondScript,
      index.scripts.find? first = some firstScript → Script.key firstScript.name = key →
      index.scripts.find? second = some secondScript → Script.key secondScript.name = key →
        first == second) : index.scriptAt? key = other.scriptAt? key := by
  by_cases declared : ∃ path script, index.scripts.find? path = some script ∧
      Script.key script.name = key
  · obtain ⟨path, script, found, rfl⟩ := declared
    obtain ⟨first, answer, firstFound, firstKey, answered⟩ := valid.exists_scriptAt?_of_find? found
    obtain ⟨second, otherAnswer, secondFound, secondKey, otherAnswered⟩ :=
      otherValid.exists_scriptAt?_of_find? ((same path).symm.trans found)
    rw [← same] at secondFound
    have samePath := alone first second answer otherAnswer firstFound firstKey secondFound secondKey
    rw [Table.find?_congr index.scripts samePath, secondFound] at firstFound
    rw [answered, otherAnswered, firstFound]
  · have undeclared (path : Path) (script : Script)
        (found : index.scripts.find? path = some script) : Script.key script.name ≠ key :=
      fun isKey => declared ⟨path, script, found, isKey⟩
    rw [valid.scriptAt?_eq_none undeclared, otherValid.scriptAt?_eq_none fun path script found =>
      undeclared path script ((same path).trans found)]

/-- A file that declares a key is listed once under it. -/
theorem Valid.countP_declaring {key : String} {path : Path}
    (listed : (index.declaring key).contains path) :
    (index.declaring key).countP (· == path) = 1 := by
  have distinct := valid.once key
  rw [List.contains_iff_exists_mem_beq] at listed
  obtain ⟨other, member, same⟩ := listed
  obtain ⟨before, after, split⟩ := List.append_of_mem member
  rw [split, List.pairwise_append, List.pairwise_cons] at distinct
  have noneBefore : before.countP (· == path) = 0 := by
    rw [List.countP_eq_zero]
    intro earlier isBefore
    rw [BEq.congr_right same, distinct.2.2 earlier isBefore other List.mem_cons_self]
    exact Bool.false_ne_true
  have noneAfter : after.countP (· == path) = 0 := by
    rw [List.countP_eq_zero]
    intro later isAfter
    rw [BEq.comm, BEq.congr_left same, distinct.2.1.1 later isAfter]
    exact Bool.false_ne_true
  rw [split, List.countP_append, List.countP_cons, noneBefore, noneAfter, BEq.comm, same]
  rfl

end Answers

section Runs

/-- A change of the index. -/
inductive Operation where
  | put (path : Path) (symbols : List Symbol) (script : Option Script)
  | remove (path : Path)
  | removeUnder (above : Path)
  deriving Repr

/-- The index after a change. -/
def Operation.apply (index : Index) : Operation → Index
  | .put path symbols script => index.put path symbols script
  | .remove path => (index.remove path).2
  | .removeUnder above => (index.removeUnder above).2

/-- The index after some changes, the first of them first. -/
def perform (index : Index) (operations : List Operation) : Index :=
  operations.foldl Operation.apply index

/-- Every single change keeps the invariant. -/
theorem Valid.apply {index : Index} (valid : index.Valid) (operation : Operation) :
    (operation.apply index).Valid := by
  cases operation with
  | put path symbols script => exact valid.put path symbols script
  | remove path => exact valid.erase path
  | removeUnder above => exact valid.removeUnder above

/-- Every sequence of changes keeps the invariant. -/
theorem Valid.perform {index : Index} (valid : index.Valid) (operations : List Operation) :
    (index.perform operations).Valid := by
  induction operations generalizing index with
  | nil => exact valid
  | cons operation rest inductionHypothesis => exact inductionHypothesis (valid.apply operation)

/-- In every index that was built by changes from the empty one, the three tables agree.

A file with a script is indexed. A file stands in the list of a key exactly when its script
has that key, and then once, and in no other list. No list is empty. So a key that is known
is always answered, and with a script that has it. -/
theorem tables_agree_after_every_run (operations : List Operation) :
    let index := empty.perform operations
    (∀ path, index.scripts.contains path → index.files.contains path) ∧
    (∀ key path,
      (∃ paths, index.declarers.find? key = some paths ∧ paths.contains path) ↔
        ∃ script, index.scripts.find? path = some script ∧ Script.key script.name = key) ∧
    (∀ key paths path, index.declarers.find? key = some paths → paths.contains path →
      paths.countP (· == path) = 1 ∧
        ∀ other others, index.declarers.find? other = some others →
          others.contains path → other = key) ∧
    (∀ key paths, index.declarers.find? key = some paths → paths ≠ []) ∧
    (∀ key, index.declarers.contains key →
      ∃ script, index.script? key = some script ∧ Script.key script.name = key) := by
  intro index
  have valid : index.Valid := empty_valid.perform operations
  have listed {key : String} {paths : List Path} (found : index.declarers.find? key = some paths) :
      index.declaring key = paths := by
    rw [declaring, found, Option.getD_some]
  have listed_iff (key : String) (path : Path) :
      (∃ paths, index.declarers.find? key = some paths ∧ paths.contains path) ↔
        (index.declaring key).contains path := by
    unfold declaring
    cases index.declarers.find? key <;> simp
  refine ⟨?_, ?_, ?_, ?_, ?_⟩
  · intro path present
    rw [Table.contains_eq_isSome, Option.isSome_iff_ne_none] at present ⊢
    exact fun unknown => present (valid.indexed path unknown)
  · intro key path
    rw [listed_iff, valid.declared]
  · intro key paths path found present
    rw [← listed found] at present ⊢
    refine ⟨valid.countP_declaring present, ?_⟩
    intro other others otherFound otherPresent
    rw [← listed otherFound] at otherPresent
    obtain ⟨script, stored, same⟩ := (valid.declared key path).mp present
    obtain ⟨otherScript, otherStored, otherSame⟩ := (valid.declared other path).mp otherPresent
    rw [stored, Option.some.injEq] at otherStored
    rw [← otherSame, ← otherStored, same]
  · rintro key paths found rfl
    exact valid.occupied key found
  · intro key known
    obtain ⟨path, script, stored, same, answered⟩ := valid.exists_scriptAt? known
    refine ⟨script, ?_, same⟩
    rw [script?, ← same, Script.key_key, same, answered]

end Runs

end Index
end Papyrus
