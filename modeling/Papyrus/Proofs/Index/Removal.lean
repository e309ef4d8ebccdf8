import Papyrus.Proofs.Index.History

/-!
# Removing a directory

Removing a directory removes its files one after the other, in whatever order the table of files
happens to list them. Every one of these removals patches the lists of declaring files and may drop
a key. Still the order has no part in the result, and nothing but the files of the directory is
touched.

The reason is that a removal can be told for all tables at once: each of them loses what belongs to
the paths that are gone. Told in this way, removals in a row are a single one for all paths that are
gone, and that does not depend on an order. It is an equality of indexes: entries keep their places
and their spelling.
-/
namespace Papyrus

namespace Index

section Strike

/-- What is left of the list of a key when some paths are gone. A list that is empty is not kept. -/
def remainder (gone : Path → Bool) (entry : String × List Path) : Option (String × List Path) :=
  let left := entry.2.filter fun path => !gone path
  if left.isEmpty then none else some (entry.1, left)

/-- What is left of a list stays under its key. -/
theorem key_of_remainder {gone : Path → Bool} {entry left : String × List Path}
    (isLeft : remainder gone entry = some left) : left.1 = entry.1 := by
  simp only [remainder] at isLeft
  split at isLeft
  · exact absurd isLeft.symm (Option.some_ne_none left)
  · rw [← Option.some.inj isLeft]

/-- A list of which nothing is gone stays as it is. -/
theorem remainder_eq_self {gone : Path → Bool} {entry : String × List Path}
    (occupied : entry.2 ≠ []) (kept : ∀ path ∈ entry.2, gone path = false) :
    remainder gone entry = some entry := by
  have whole : (entry.2.filter fun path => !gone path) = entry.2 := by
    refine List.filter_eq_self.mpr fun path member => ?_
    rw [kept path member]
    rfl
  simp [remainder, whole, occupied]

/-- A list depends on whether its own paths are gone. -/
theorem remainder_congr {first second : Path → Bool} {entry : String × List Path}
    (agree : ∀ path ∈ entry.2, first path = second path) :
    remainder first entry = remainder second entry := by
  have same : (entry.2.filter fun path => !first path) = entry.2.filter fun path => !second path :=
    List.filter_congr fun path member => by rw [agree path member]
  simp only [remainder, same]

/-- What is left when more paths go is what is left when all of them go at once. -/
theorem remainder_bind (first second : Path → Bool) (entry : String × List Path) :
    (remainder first entry).bind (remainder second) =
      remainder (fun path => first path || second path) entry := by
  have both : ((entry.2.filter fun path => !first path).filter fun path => !second path) =
      entry.2.filter fun path => !(first path || second path) := by
    simp only [List.filter_filter, Bool.not_or, Bool.and_comm]
  rw [remainder.eq_def first, remainder.eq_def (fun path => first path || second path), ← both]
  by_cases nothing : entry.2.filter (fun path => !first path) = []
  · rw [nothing]
    rfl
  · have occupied : (entry.2.filter fun path => !first path).isEmpty = false :=
      List.isEmpty_eq_false_iff.mpr nothing
    simp only [occupied, Bool.false_eq_true, if_false, Option.bind_some, remainder]

/-- Strike the paths that are gone from all lists. -/
def strike (declarers : Table String (List Path)) (gone : Path → Bool) :
    Table String (List Path) where
  entries := declarers.entries.filterMap (remainder gone)
  distinct := by
    refine declarers.distinct.filterMap _ fun first second differ left isLeft other isOther => ?_
    rw [key_of_remainder isLeft, key_of_remainder isOther]
    exact differ

/-- Every list is struck by itself. -/
theorem entries_strike (declarers : Table String (List Path)) (gone : Path → Bool) :
    (strike declarers gone).entries = declarers.entries.filterMap (remainder gone) := rfl

/-- Nothing is struck where all lists stay as they are. -/
theorem strike_eq_self {declarers : Table String (List Path)} {gone : Path → Bool}
    (kept : ∀ entry ∈ declarers.entries, remainder gone entry = some entry) :
    strike declarers gone = declarers := by
  refine Table.eq_of_entries ?_
  rw [entries_strike, List.filterMap_congr kept, List.filterMap_some]

/-- Striking a path from the list of a key strikes it from all lists, if the others do not hold
it. -/
theorem withdraw_eq_strike {declarers : Table String (List Path)} {key : String} {path : Path}
    (kept : ∀ entry ∈ declarers.entries, entry.1 ≠ key →
      remainder (· == path) entry = some entry) :
    withdraw declarers key path = strike declarers (· == path) := by
  have listed {paths : List Path} (found : declarers.find? key = some paths)
      (entry : String × List Path) (member : entry ∈ declarers.entries) (isKey : entry.1 = key) :
      entry.2 = paths := by
    have stored := declarers.find?_of_mem member
    rw [isKey, found] at stored
    exact (Option.some.inj stored).symm
  unfold withdraw
  cases found : declarers.find? key with
  | none =>
    refine (strike_eq_self fun entry member => kept entry member ?_).symm
    rintro rfl
    exact absurd (declarers.find?_of_mem member) (by simp [found])
  | some paths =>
    refine Table.eq_of_entries ?_
    rw [entries_strike]
    dsimp only
    split
    next struck =>
      -- The list of the key is empty now, and its entry goes.
      rw [Table.entries_erase, ← List.filterMap_eq_filter]
      refine List.filterMap_congr fun entry member => ?_
      by_cases isKey : entry.1 = key
      · simp [Option.guard, remainder, isKey, listed found entry member isKey, struck]
      · simp [Option.guard, isKey, kept entry member isKey]
    next occupied =>
      -- The list of the key is replaced in its place.
      have present : declarers.contains key := by simp [Table.contains_eq_isSome, found]
      rw [Table.entries_insert present, ← List.filterMap_eq_map]
      refine List.filterMap_congr fun entry member => ?_
      by_cases isKey : entry.1 = key
      · have nonempty : (paths.filter fun other => !(other == path)).isEmpty = false :=
          List.isEmpty_eq_false_iff.mpr occupied
        simp only [Function.comp_apply, isKey, beq_self_eq_true, if_true, remainder,
          listed found entry member isKey, nonempty, Bool.false_eq_true, if_false]
      · simp [isKey, kept entry member isKey]

end Strike

section Without

/-- The index without the paths that are gone: they have neither symbols nor scripts, and declare
nothing. -/
def without (index : Index) (gone : Path → Bool) : Index where
  files := index.files.eraseIf gone
  scripts := index.scripts.eraseIf gone
  declarers := strike index.declarers gone

/-- Paths that go in two steps may as well go at once. -/
theorem without_without (index : Index) (first second : Path → Bool) :
    (index.without first).without second = index.without fun path => first path || second path := by
  have struck : strike (strike index.declarers first) second =
      strike index.declarers fun path => first path || second path := by
    refine Table.eq_of_entries ?_
    rw [entries_strike, entries_strike, entries_strike, List.filterMap_filterMap]
    exact List.filterMap_congr fun entry _ => remainder_bind first second entry
  simp only [without, Table.eraseIf_eraseIf, struck]

variable {index : Index} (valid : index.Valid)

include valid

/-- The lists are not empty, and hold paths with scripts. -/
theorem Valid.of_mem_declarers {entry : String × List Path}
    (member : entry ∈ index.declarers.entries) :
    entry.2 ≠ [] ∧ ∀ path ∈ entry.2, ∃ script, index.scripts.find? path = some script ∧
      Script.key script.name = entry.1 := by
  have stored := index.declarers.find?_of_mem member
  refine ⟨?_, ?_⟩
  · intro empty
    rw [empty] at stored
    exact valid.occupied entry.1 stored
  · intro path listed
    refine (valid.declared entry.1 path).mp ?_
    rw [declaring, stored, Option.getD_some]
    exact List.elem_eq_true_of_mem listed

/-- Only indexed paths can go. -/
theorem Valid.without_congr {first second : Path → Bool}
    (agree : ∀ path, (index.symbols? path).isSome → first path = second path) :
    index.without first = index.without second := by
  have files : index.files.eraseIf first = index.files.eraseIf second := by
    refine Table.eraseIf_congr fun entry member => agree entry.1 ?_
    rw [symbols?, index.files.find?_of_mem member]
    rfl
  have scripts : index.scripts.eraseIf first = index.scripts.eraseIf second :=
    Table.eraseIf_congr fun entry member =>
      agree entry.1 (valid.isSome_symbols? (index.scripts.find?_of_mem member))
  have declarers : strike index.declarers first = strike index.declarers second := by
    refine Table.eq_of_entries (List.filterMap_congr fun entry member => ?_)
    refine remainder_congr fun path listed => ?_
    obtain ⟨script, found, _⟩ := (valid.of_mem_declarers member).2 path listed
    exact agree path (valid.isSome_symbols? found)
  rw [without, without, files, scripts, declarers]

/-- Nothing changes where nothing goes. -/
theorem Valid.without_none : index.without (fun _ => false) = index := by
  have declarers : strike index.declarers (fun _ => false) = index.declarers :=
    strike_eq_self fun entry member =>
      remainder_eq_self (valid.of_mem_declarers member).1 fun _ _ => rfl
  rw [without, declarers, Table.eraseIf_eq_self fun _ _ => rfl, Table.eraseIf_eq_self fun _ _ => rfl]

/-- Forgetting a file makes its path go. -/
theorem Valid.erase_eq_without (path : Path) : index.erase path = index.without (· == path) := by
  have kept (entry : String × List Path) (member : entry ∈ index.declarers.entries)
      (foreign : ∀ script, index.scripts.find? path = some script →
        entry.1 ≠ Script.key script.name) : remainder (· == path) entry = some entry := by
    obtain ⟨occupied, declared⟩ := valid.of_mem_declarers member
    refine remainder_eq_self occupied fun other listed => ?_
    obtain ⟨script, found, isKey⟩ := declared other listed
    rw [Bool.eq_false_iff]
    intro same
    rw [Table.find?_congr index.scripts same] at found
    exact foreign script found isKey.symm
  unfold Index.erase Index.release
  cases found : index.scripts.find? path with
  | none =>
    have scripts : index.scripts.eraseIf (· == path) = index.scripts := by
      refine Table.eraseIf_eq_self fun entry member => Bool.eq_false_iff.mpr fun same => ?_
      have stored := index.scripts.find?_of_mem member
      rw [Table.find?_congr index.scripts same, found] at stored
      exact Option.some_ne_none entry.2 stored.symm
    have declarers : strike index.declarers (· == path) = index.declarers :=
      strike_eq_self fun entry member => kept entry member (by simp [found])
    rw [without, scripts, declarers]
    rfl
  | some script =>
    have declarers : withdraw index.declarers (Script.key script.name) path =
        strike index.declarers (· == path) := by
      refine withdraw_eq_strike fun entry member foreign => kept entry member ?_
      rintro _ same
      obtain rfl := Option.some.inj (found.symm.trans same)
      exact foreign
    rw [without, ← declarers]
    rfl

/-- Forgetting some files one after the other makes all their paths go. -/
theorem Valid.perform_removes_eq_without (paths : List Path) :
    index.perform (paths.map .remove) = index.without fun path => paths.contains path := by
  induction paths generalizing index with
  | nil => exact valid.without_none.symm
  | cons path rest inductionHypothesis =>
    have first : index.perform ((path :: rest).map .remove) =
        (index.erase path).perform (rest.map .remove) := rfl
    rw [first, inductionHypothesis (valid.erase path), valid.erase_eq_without, without_without]
    simp only [List.contains_cons]

omit valid in
/-- Forgetting some files is a run of removals. -/
theorem removeAll_snd_eq_perform (index : Index) (paths : List Path) :
    (index.removeAll paths).2 = index.perform (paths.map .remove) := by
  induction paths generalizing index with
  | nil => rfl
  | cons path rest inductionHypothesis => exact inductionHypothesis (index.erase path)

/-- Forgetting everything at or below a path makes all of it go. -/
theorem Valid.removeUnder_eq_without (above : Path) :
    (index.removeUnder above).2 = index.without fun path => path.startsWith above := by
  rw [Index.removeUnder, removeAll_snd_eq_perform, valid.perform_removes_eq_without]
  refine valid.without_congr fun path known => ?_
  rw [contains_filesUnder, known, Bool.true_and]

/-- Directories go in any order. -/
theorem Valid.removeUnder_comm (one other : Path) :
    ((index.removeUnder one).2.removeUnder other).2 =
      ((index.removeUnder other).2.removeUnder one).2 := by
  rw [(valid.removeUnder one).removeUnder_eq_without, (valid.removeUnder other).removeUnder_eq_without,
    valid.removeUnder_eq_without, valid.removeUnder_eq_without, without_without, without_without]
  simp only [Bool.or_comm]

end Without

section Enumerations

/-- The indexed files at or below a path, each of them once, in any order and in any spelling. -/
structure Enumerates (index : Index) (above : Path) (order : List Path) : Prop where
  distinct : order.Pairwise fun first second => (first == second) = false
  listed : ∀ path, order.contains path ↔
    (index.symbols? path).isSome ∧ path.startsWith above

/-- The files that are removed with a directory are an enumeration. -/
theorem filesUnder_enumerates (index : Index) (above : Path) :
    index.Enumerates above (index.filesUnder above) where
  distinct := ((List.pairwise_map).mpr index.files.distinct).filter _
  listed path := by rw [contains_filesUnder, Bool.and_eq_true]

/-- All enumerations have the same length. -/
theorem Enumerates.length_eq {index : Index} {above : Path} {one other : List Path}
    (isOne : index.Enumerates above one) (isOther : index.Enumerates above other) :
    one.length = other.length := by
  -- Different paths have different components, so the components can be counted in their place.
  have nodup {order : List Path} (isOrder : index.Enumerates above order) :
      (order.map Path.components).Nodup := by
    rw [List.nodup_iff_pairwise_ne, List.pairwise_map]
    refine isOrder.distinct.imp fun {first second} differ same => ?_
    rw [(Path.beq_iff_components first second).mpr same] at differ
    exact Bool.noConfusion differ
  have included {order another : List Path} (isOrder : index.Enumerates above order)
      (isAnother : index.Enumerates above another) :
      order.map Path.components ⊆ another.map Path.components := by
    intro components member
    obtain ⟨path, listed, rfl⟩ := List.mem_map.mp member
    have known := (isOrder.listed path).mp (List.elem_eq_true_of_mem listed)
    obtain ⟨spelled, isListed, same⟩ :=
      List.contains_iff_exists_mem_beq.mp ((isAnother.listed path).mpr known)
    exact List.mem_map.mpr ⟨spelled, isListed, ((Path.beq_iff_components path spelled).mp same).symm⟩
  have permuted : (one.map Path.components).Perm (other.map Path.components) :=
    (List.perm_ext_iff_of_nodup (nodup isOne) (nodup isOther)).mpr fun _ =>
      ⟨fun member => included isOne isOther member, fun member => included isOther isOne member⟩
  simpa using permuted.length_eq

/-- Removing a directory is removing its files in any order. -/
theorem Enumerates.perform_eq {index : Index} (valid : index.Valid) {above : Path}
    {order : List Path} (isOrder : index.Enumerates above order) :
    index.perform (order.map .remove) = (index.removeUnder above).2 := by
  rw [valid.perform_removes_eq_without, valid.removeUnder_eq_without]
  refine valid.without_congr fun path known => ?_
  rw [Bool.eq_iff_iff, isOrder.listed]
  exact and_iff_right known

end Enumerations

section Answers

/-- The most recent of the paths outside a directory that declare a key, with the script it
declares. -/
def MostRecentOutside (operations : List Operation) (above : Path) (key : String) (path : Path)
    (script : Script) : Prop :=
  path.startsWith above = false ∧
  ∃ stored, stored? operations path = some stored ∧ stored.script = some script ∧
    Script.key script.name = key ∧
    ∀ other, (other == path) = false → other.startsWith above = false →
      Declares operations other key →
        ∃ before, stored? operations other = some before ∧ before.moment < stored.moment

variable (operations : List Operation) (above : Path)

/-- When a directory is removed, the paths outside keep what was stored for them. -/
theorem stored?_removeUnder (path : Path) :
    stored? (operations ++ [.removeUnder above]) path =
      if path.startsWith above then none else stored? operations path := by
  rw [stored?_append]
  rfl

/-- When a directory is removed, the paths outside declare what they declared. -/
theorem declares_removeUnder_iff (path : Path) (key : String) :
    Declares (operations ++ [.removeUnder above]) path key ↔
      path.startsWith above = false ∧ Declares operations path key := by
  unfold Declares
  rw [stored?_removeUnder]
  cases path.startsWith above <;> simp

/-- When a directory is removed, the most recent path is the most recent one outside. -/
theorem mostRecent_removeUnder_iff (key : String) (path : Path) (script : Script) :
    MostRecent (operations ++ [.removeUnder above]) key path script ↔
      MostRecentOutside operations above key path script := by
  unfold MostRecent MostRecentOutside
  cases inside : path.startsWith above with
  | true => simp [stored?_removeUnder, inside]
  | false =>
    simp only [stored?_removeUnder, declares_removeUnder_iff, inside, Bool.false_eq_true, if_false,
      true_and]
    refine exists_congr fun stored => and_congr_right fun _ => and_congr_right fun _ =>
      and_congr_right fun _ => forall_congr' fun other => imp_congr_right fun _ => ?_
    cases other.startsWith above <;> simp

end Answers

/-- Removing a directory is removing its files one by one, in any order, in every index that was
built by changes from the empty one.

Its files can be put in an order, and for every order the same index is reached, down to the places
and the spelling of its entries; their number is what the removal reports. All other paths keep
their symbols and their scripts, and the declaring files that stay keep their order. So directories
can be removed in any order. A name is answered with the script of the most recent path outside the
directory that declares it, and with nothing if none does. -/
theorem directory_goes_file_by_file (operations : List Operation) (above : Path) :
    let index := empty.perform operations
    let smaller := (index.removeUnder above).2
    (∃ order, index.Enumerates above order) ∧
    (∀ order, index.Enumerates above order →
      index.perform (order.map .remove) = smaller ∧ (index.removeUnder above).1 = order.length) ∧
    (∀ path, path.startsWith above = false → smaller.symbols? path = index.symbols? path ∧
      smaller.scripts.find? path = index.scripts.find? path) ∧
    (∀ key, smaller.declaring key =
      (index.declaring key).filter fun path => !path.startsWith above) ∧
    (∀ other, (smaller.removeUnder other).2 = ((index.removeUnder other).2.removeUnder above).2) ∧
    (∀ name script, smaller.script? name = some script ↔
      ∃ path, MostRecentOutside operations above (Script.key name) path script) ∧
    ∀ name, smaller.script? name = none ↔
      ∀ path, Declares operations path (Script.key name) → path.startsWith above := by
  intro index smaller
  have valid : index.Valid := empty_valid.perform operations
  have follows : smaller.Follows (operations ++ [.removeUnder above]) :=
    (perform_follows operations).apply (.removeUnder above)
  refine ⟨⟨_, filesUnder_enumerates index above⟩, ?_, ?_, valid.declaring_removeUnder above,
    valid.removeUnder_comm above, ?_, ?_⟩
  · intro order isOrder
    refine ⟨isOrder.perform_eq valid, ?_⟩
    rw [count_removeUnder, (filesUnder_enumerates index above).length_eq isOrder]
  · intro path outside
    have symbols := symbols?_removeUnder index above path
    have scripts := valid.find?_removeUnder_scripts above path
    rw [outside] at symbols scripts
    exact ⟨symbols, scripts⟩
  · intro name script
    rw [script?, follows.scriptAt?_eq_some_iff]
    exact exists_congr fun path => mostRecent_removeUnder_iff operations above _ path script
  · intro name
    rw [script?, follows.scriptAt?_eq_none_iff]
    refine forall_congr' fun path => ?_
    rw [declares_removeUnder_iff]
    cases path.startsWith above <;> simp

/-- Three files that declare a gate, of which the first and the last are in the same directory. -/
def gates : List Operation :=
  let gate (name : String) : Script := ⟨name, none, [], [], []⟩
  [.put ⟨"old/Gate.psc"⟩ [] (some (gate "Gate")), .put ⟨"new/Gate.psc"⟩ [] (some (gate "GATE")),
    .put ⟨"old/Door.psc"⟩ [] (some (gate "gate"))]

/-- The files of a directory are removed from the last to the first, in other spellings. The gate in
between answers then. -/
theorem gates_go_in_reverse_order :
    let index := empty.perform gates
    let order : List Path := [⟨"old//Door.psc"⟩, ⟨"old/./Gate.psc"⟩]
    index.Enumerates ⟨"old/"⟩ order ∧
      index.perform (order.map .remove) = (index.removeUnder ⟨"old/"⟩).2 ∧
      (index.removeUnder ⟨"old/"⟩).1 = 2 ∧
      (index.script? "gate").map (·.name) = some "gate" ∧
      ((index.removeUnder ⟨"old/"⟩).2.script? "gate").map (·.name) = some "GATE" := by
  intro index order
  have given : index.filesUnder ⟨"old/"⟩ = [⟨"old/Gate.psc"⟩, ⟨"old/Door.psc"⟩] := by rfl
  have isOrder : index.Enumerates ⟨"old/"⟩ order := by
    refine ⟨by decide +kernel, fun path => ?_⟩
    have door : (⟨"old/Door.psc"⟩ : Path) == ⟨"old//Door.psc"⟩ := by decide +kernel
    have gate : (⟨"old/Gate.psc"⟩ : Path) == ⟨"old/./Gate.psc"⟩ := by decide +kernel
    rw [← (filesUnder_enumerates index ⟨"old/"⟩).listed, given]
    simp [order, BEq.congr_right door, BEq.congr_right gate, or_comm]
  obtain ⟨same, count⟩ := (directory_goes_file_by_file gates ⟨"old/"⟩).2.1 order isOrder
  exact ⟨isOrder, same, count, by decide +kernel, by decide +kernel⟩

end Index
end Papyrus
