import Papyrus.Disk.Edit
import Papyrus.Proofs.Disk.Tree

/-!
# What a change does to the files of a tree

Paths that are absolute and have no `..` name their places, so a change made through such
a path is a change at that place. Writing makes the path's file and no other; the
directories that it makes on the way come to stand where nothing stood. Removing takes the
files at or below the path and no other. Either leaves a tree.

A change may fail. What is said here is said of changes that succeed.
-/
namespace Papyrus.Disk

section Stages

/-- The first piece of an absolute path is the empty one before its first slash. -/
theorem pieces_of_isAbsolute {path : Path} (absolute : path.isAbsolute) :
    ∃ rest, pieces path.text = "" :: rest := by
  unfold Path.isAbsolute at absolute
  unfold pieces
  cases spelled : path.text.toList with
  | nil => simp [spelled] at absolute
  | cons first rest =>
    have slash : first = '/' := by simpa [spelled] using absolute
    rw [List.splitOn_cons_eq_if_modifyHead, if_pos (by simp [slash]), List.map_cons]
    exact ⟨_, rfl⟩

/-- Pieces without a slash are the pieces of the text that slashes make of them. -/
theorem pieces_intercalate {parts : List String} (whole : ∀ part ∈ parts, '/' ∉ part.toList)
    (nonempty : parts ≠ []) : pieces ("/".intercalate parts) = parts := by
  have slash : ("/" : String).toList = ['/'] := rfl
  unfold pieces
  rw [String.toList_intercalate, slash, List.splitOn_intercalate, List.map_map]
  · simp [Function.comp_def, String.ofList_toList]
  · intro characters member
    obtain ⟨part, isPart, rfl⟩ := List.mem_map.mp member
    exact whole part isPart
  · simpa using nonempty

/-- The first stage of a path that names a place is empty, and the others name places. -/
theorem named_of_mem_stages {path stage : Path} {trail : Trail} (named : path.trail? = some trail)
    (member : stage ∈ stages path) : stage.text = "" ∨ ∃ above, stage.trail? = some above := by
  obtain ⟨absolute, plain, _⟩ := (Path.trail?_eq_some_iff_pieces path trail).mp named
  obtain ⟨rest, split⟩ := pieces_of_isAbsolute absolute
  obtain ⟨count, _, rfl⟩ := List.mem_map.mp member
  rw [split] at plain ⊢
  rw [List.take_succ_cons]
  cases taken : rest.take count with
  | nil => exact Or.inl (by simp)
  | cons next others =>
    refine Or.inr ⟨_, (Path.trail?_eq_some_iff_pieces _ _).mpr ⟨?_, ?_, rfl⟩⟩
    · simp [Path.isAbsolute, String.toList_intercalate, List.intercalate]
    · rw [pieces_intercalate _ (List.cons_ne_nil _ _), ← taken]
      · exact fun parent => plain (List.mem_of_mem_take (i := count + 1) parent)
      · intro part isPart slash
        rw [← taken] at isPart
        have isPiece : part ∈ pieces path.text := by
          rw [split]
          exact List.mem_of_mem_take (i := count + 1) isPart
        exact (mem_of_mem_pieces isPiece slash).2 rfl

end Stages

section Changes

/-- Where a sequence of attempts succeeds, its first attempt does, and then the rest. -/
theorem exists_of_bind_eq_ok {α β : Type} {first : Except FileError α}
    {rest : α → Except FileError β} {result : β} (done : first >>= rest = .ok result) :
    ∃ value, first = .ok value ∧ rest value = .ok result := by
  cases first with
  | error error => exact absurd done (by simp [bind, Except.bind])
  | ok value => exact ⟨value, rfl, done⟩

variable {disk after : Disk} (tree : disk.IsTree)

include tree

/-- Where a path that names a place leads, something stands, or a node can be put into a
directory under a proper name. -/
theorem IsTree.place_of_locate {path : Path} {trail found : Trail}
    (named : path.trail? = some trail) {lookup : Lookup}
    (led : disk.locate lookup path = .ok found) :
    (disk.node? found).isSome ∨ ∃ name above, found = name :: above ∧ IsName name ∧
      disk.node? above = some .directory := by
  obtain ⟨absolute, plain, _⟩ := (Path.trail?_eq_some_iff_pieces path trail).mp named
  rw [locate_of_isAbsolute absolute] at led
  split at led
  next => exact absurd led (by simp)
  next nulFree =>
    refine tree.place_of_follow plain ?_ rfl led
    intro piece isPiece
    exact ⟨fun slash => (mem_of_mem_pieces isPiece slash).2 rfl,
      fun nul => nulFree (mem_of_mem_pieces isPiece nul).1⟩

/-- Making a directory keeps a tree and all its files. -/
theorem IsTree.makeDirectory {path : Path}
    (plain : path.text = "" ∨ ∃ trail, path.trail? = some trail)
    (done : disk.makeDirectory path = .ok after) :
    after.IsTree ∧ ∀ other, after.file? other = disk.file? other := by
  unfold Disk.makeDirectory at done
  split at done
  next =>
    obtain rfl := Except.ok.inj done
    exact ⟨tree, fun _ => rfl⟩
  next needed =>
    rcases plain with empty | ⟨trail, named⟩
    · exact absurd (by simp [empty]) needed
    · obtain ⟨place, led, made⟩ := exists_of_bind_eq_ok done
      split at made
      next => exact absurd made (by simp)
      next free =>
        obtain rfl := Except.ok.inj made
        refine ⟨?_, file?_set_directory free⟩
        rcases tree.place_of_locate named led with present | ⟨name, above, rfl, isName, parent⟩
        · exact absurd present (by simp [free])
        · exact tree.set isName parent (by simp [free]) (by simp)

/-- Making the directories above a path keeps a tree and all its files. -/
theorem IsTree.makeParents {path : Path} {trail : Trail} (named : path.trail? = some trail)
    (done : disk.makeParents path = .ok after) :
    after.IsTree ∧ ∀ other, after.file? other = disk.file? other := by
  have plain : ∀ stage ∈ (stages path).dropLast,
      stage.text = "" ∨ ∃ above, stage.trail? = some above :=
    fun stage member => named_of_mem_stages named (List.mem_of_mem_dropLast member)
  unfold Disk.makeParents at done
  generalize (stages path).dropLast = above at plain done
  induction above generalizing disk with
  | nil =>
    obtain rfl := Except.ok.inj done
    exact ⟨tree, fun _ => rfl⟩
  | cons stage rest inductionHypothesis =>
    rw [List.foldlM_cons] at done
    obtain ⟨next, made, restDone⟩ := exists_of_bind_eq_ok done
    obtain ⟨nextTree, nextFiles⟩ := tree.makeDirectory (plain stage List.mem_cons_self) made
    obtain ⟨afterTree, afterFiles⟩ := inductionHypothesis nextTree
      (fun other member => plain other (List.mem_cons_of_mem stage member)) restDone
    exact ⟨afterTree, fun other => (afterFiles other).trans (nextFiles other)⟩

/-- A file can be put where a path that names a place leads, unless a directory stands
there. The path then leads to the file. -/
theorem IsTree.set_file {path : Path} {trail : Trail} (named : path.trail? = some trail)
    (led : disk.locate .newTarget path = .ok trail)
    (replaceable : disk.node? trail ≠ some .directory) (content : List UInt8)
    (modified : Timestamp) :
    (disk.set trail (.file content modified)).IsTree ∧
      (disk.set trail (.file content modified)).locate .target path = .ok trail := by
  have entry : ∃ name above, trail = name :: above ∧ IsName name ∧
      disk.node? above = some .directory := by
    rcases tree.place_of_locate named led with present | isEntry
    · obtain ⟨node, standing⟩ := Option.isSome_iff_exists.mp present
      cases trail with
      | nil => exact absurd rfl replaceable
      | cons name above =>
        exact ⟨name, above, rfl, tree.named name above node standing,
          tree.inside name above node standing⟩
    · exact isEntry
  obtain ⟨name, above, rfl, isName, parent⟩ := entry
  have afterTree : (disk.set (name :: above) (.file content modified)).IsTree :=
    tree.set isName parent replaceable (by simp)
  refine ⟨afterTree, ?_⟩
  obtain ⟨absolute, plain, _⟩ := (Path.trail?_eq_some_iff_pieces path _).mp named
  rw [locate_of_isAbsolute absolute] at led ⊢
  split at led
  next => exact absurd led (by simp)
  next nulFree =>
    rw [if_neg nulFree]
    exact tree.follow_set plain (List.cons_ne_nil name above) replaceable afterTree led

/-- Writing makes the file of the path, which can be read through the path, and leaves all
other files. -/
theorem IsTree.write {path : Path} {trail : Trail} (named : path.trail? = some trail)
    {content : List UInt8} {modified : Timestamp}
    (done : disk.write path content modified = .ok after) :
    after.IsTree ∧ (after.modified path = .ok modified ∧ after.read path = .ok content) ∧
      ∀ other, after.file? other =
        if path == other then some (modified, content) else disk.file? other := by
  unfold Disk.write at done
  obtain ⟨ready, made, placed⟩ := exists_of_bind_eq_ok done
  obtain ⟨readyTree, readyFiles⟩ := tree.makeParents named made
  obtain ⟨place, led, written⟩ := exists_of_bind_eq_ok placed
  obtain rfl := readyTree.eq_of_locate named led
  split at written
  next => exact absurd written (by simp)
  next replaceable =>
    obtain rfl := Except.ok.inj written
    have notRoot : place ≠ [] := by
      rintro rfl
      exact replaceable rfl
    obtain ⟨afterTree, leads⟩ := readyTree.set_file named led replaceable content modified
    have isFile : (ready.set place (.file content modified)).node? place =
        some (.file content modified) := by
      rw [node?_set ready _ _ notRoot, if_pos rfl]
    refine ⟨afterTree, answers_of_locate leads isFile, fun other => ?_⟩
    rw [file?_set_file named notRoot, readyFiles]

/-- Removing takes away the files at or below the path and leaves all others. -/
theorem IsTree.remove {path : Path} {trail : Trail} (named : path.trail? = some trail)
    (done : disk.remove path = .ok after) :
    after.IsTree ∧ ∀ other, after.file? other =
      if other.startsWith path then none else disk.file? other := by
  unfold Disk.remove at done
  obtain ⟨place, led, cleared⟩ := exists_of_bind_eq_ok done
  obtain rfl := tree.eq_of_locate named led
  obtain rfl := Except.ok.inj cleared
  exact ⟨tree.clear place, file?_clear named⟩

end Changes

end Papyrus.Disk
