import Papyrus.Disk.Walk
import Papyrus.Proofs.Disk.Tree

/-!
# What a walk comes across

On a tree, a walk from a directory comes across exactly the files below it: each of them
under a path that names its place and leads there, whatever the spelling of the path that
the walk started from. Nothing is claimed here about the order.
-/
namespace Papyrus

/-- Whether a path lies below another one and is not equal to it. -/
def Path.isBelow (path above : Path) : Bool :=
  path.startsWith above && !(path == above)

/-- Equal paths lie below the same paths. -/
theorem Path.isBelow_congr {left right : Path} (same : left == right) (above : Path) :
    left.isBelow above = right.isBelow above := by
  rw [isBelow, isBelow, startsWith_congr same, BEq.congr_left same]

/-- One path lies below another when more names lead from the place of the other to its
own. -/
theorem Path.isBelow_iff_of_trail? {path above : Path} {trail aboveTrail : Trail}
    (named : path.trail? = some trail) (aboveNamed : above.trail? = some aboveTrail) :
    path.isBelow above ↔ ∃ inner, inner ≠ [] ∧ trail = inner ++ aboveTrail := by
  have sameIff : path == above ↔ trail = aboveTrail := by
    constructor
    · intro same
      rw [trail?_congr same, aboveNamed] at named
      exact (Option.some.inj named).symm
    · rintro rfl
      exact beq_of_trail? named aboveNamed
  rw [isBelow, Bool.and_eq_true, Bool.not_eq_true', ← Bool.not_eq_true,
    startsWith_iff_of_trail? named aboveNamed, sameIff]
  constructor
  · rintro ⟨⟨inner, rfl⟩, apart⟩
    refine ⟨inner, ?_, rfl⟩
    rintro rfl
    exact apart rfl
  · rintro ⟨inner, nonempty, rfl⟩
    refine ⟨List.suffix_append inner aboveTrail, fun same => ?_⟩
    exact nonempty (List.append_left_eq_self.mp same)

namespace Disk

/-- The path that a walk has reached after entering some names, the outermost first. -/
def descend (path : Path) (names : List String) : Path :=
  names.foldl (fun above name => above.join ⟨name⟩) path

/-- The entries of a directory are the nodes one name below it. -/
theorem mem_children_iff (disk : Disk) (trail : Trail) (name : String) (node : Node) :
    (name, node) ∈ disk.children trail ↔ disk.node? (name :: trail) = some node := by
  simp only [children, List.mem_mergeSort, List.mem_filterMap]
  constructor
  · rintro ⟨⟨place, other⟩, member, matched⟩
    cases place with
    | nil => exact absurd matched (by simp)
    | cons first above =>
      by_cases same : above = trail
      · simp only [same, if_true, Option.some.injEq, Prod.mk.injEq] at matched
        change disk.nodes.find? (name :: trail) = some node
        rw [← matched.1, ← matched.2, ← same]
        exact Table.find?_of_mem disk.nodes member
      · exact absurd matched (by simp [same])
  · intro found
    obtain ⟨entry, first, rfl⟩ := Option.map_eq_some_iff.mp found
    have same : entry.1 = name :: trail := by simpa using List.find?_some first
    exact ⟨entry, List.mem_of_find?_eq_some first, by simp [same]⟩

/-- There is no walk from a path that is no directory. -/
theorem walk_eq_nil {disk : Disk} {root : Path} (noDirectory : disk.isDirectory root = false) :
    disk.walk root = [] := by
  unfold walk
  split
  next => rfl
  next trail led =>
    split
    next standing =>
      have met : disk.stat root = .ok .directory := by
        simp only [stat, led, bind, Except.bind, standing]
        rfl
      simp [isDirectory, met] at noDirectory
    next => rfl

/-- Roots that are no directories add nothing to what walks come across. -/
theorem flatMap_walk_filter (disk : Disk) (roots : List Path) :
    (roots.filter disk.isDirectory).flatMap disk.walk = roots.flatMap disk.walk := by
  induction roots with
  | nil => rfl
  | cons root rest inductionHypothesis =>
    rw [List.flatMap_cons]
    by_cases directory : disk.isDirectory root
    · rw [List.filter_cons_of_pos directory, List.flatMap_cons, inductionHypothesis]
    · rw [List.filter_cons_of_neg directory, inductionHypothesis,
        walk_eq_nil (Bool.eq_false_iff.mpr directory), List.nil_append]

variable {disk : Disk} (tree : disk.IsTree)

include tree

/-- What a walk comes across in a directory: its files, and its directories with what the
walk comes across in them. -/
theorem IsTree.mem_visitsBelow_iff (entered : List Trail) (trail : Trail) (path : Path)
    (visit : Visit) :
    visit ∈ disk.visitsBelow entered trail path ↔
      ∃ name node, disk.node? (name :: trail) = some node ∧
        ((∃ content modified, node = .file content modified ∧ visit = .file (path.join ⟨name⟩)) ∨
          (node = .directory ∧ (visit = .directory (path.join ⟨name⟩) ∨
            visit ∈ disk.visitsBelow ((name :: trail) :: entered) (name :: trail)
              (path.join ⟨name⟩)))) := by
  rw [visitsBelow, List.mem_flatMap]
  constructor
  · rintro ⟨⟨⟨name, node⟩, isChild⟩, _, member⟩
    have standing := (mem_children_iff disk trail name node).mp isChild
    refine ⟨name, node, standing, ?_⟩
    cases node with
    | file content modified => exact Or.inl ⟨content, modified, rfl, by simpa using member⟩
    | directory => exact Or.inr ⟨rfl, by simpa using member⟩
    | link target => exact absurd standing (tree.linkless _ target)
  · rintro ⟨name, node, standing, found⟩
    have isChild := (mem_children_iff disk trail name node).mpr standing
    refine ⟨⟨(name, node), isChild⟩, List.mem_attach _ _, ?_⟩
    rcases found with ⟨content, modified, rfl, rfl⟩ | ⟨rfl, found⟩
    · exact List.mem_singleton_self _
    · simpa using found

/-- The files that a walk comes across below a directory are all files below it.

The induction is on how much deeper the tree still goes: an entry of a directory stands
one name below it, and no trail is longer than the depth of the disk. -/
theorem IsTree.file_mem_visitsBelow_iff (entered : List Trail) (trail : Trail) (path found : Path) :
    .file found ∈ disk.visitsBelow entered trail path ↔
      ∃ names content modified, names ≠ [] ∧
        disk.node? (names.reverse ++ trail) = some (.file content modified) ∧
        found = descend path names := by
  generalize size : disk.depth - trail.length = remaining
  induction remaining using Nat.strong_induction_on generalizing entered trail path with
  | h remaining inductionHypothesis =>
    have deeper (name : String) (node : Node) (standing : disk.node? (name :: trail) = some node) :
        disk.depth - (name :: trail).length < remaining := by
      have bound := length_le_depth (mem_places_of_node? standing)
      rw [List.length_cons] at bound ⊢
      omega
    rw [tree.mem_visitsBelow_iff]
    constructor
    · rintro ⟨name, node, standing, ⟨content, modified, rfl, same⟩ | ⟨rfl, same | inside⟩⟩
      · exact ⟨[name], content, modified, by simp, standing, by simpa [descend] using same⟩
      · exact absurd same (by simp)
      · obtain ⟨names, content, modified, _, isFile, reached⟩ :=
          (inductionHypothesis _ (deeper name _ standing) _ (name :: trail) _ rfl).mp inside
        refine ⟨name :: names, content, modified, by simp, ?_, reached⟩
        rw [List.reverse_cons, List.append_assoc]
        exact isFile
    · rintro ⟨names, content, modified, nonempty, isFile, reached⟩
      cases names with
      | nil => exact absurd rfl nonempty
      | cons name names =>
        rw [List.reverse_cons, List.append_assoc, List.singleton_append] at isFile
        cases names with
        | nil =>
          exact ⟨name, .file content modified, isFile, Or.inl ⟨content, modified, rfl, by
            rw [reached, descend, List.foldl_cons, List.foldl_nil]⟩⟩
        | cons next others =>
          have isDirectory := tree.directory_of_append isFile (by simp)
          refine ⟨name, .directory, isDirectory, Or.inr ⟨rfl, Or.inr ?_⟩⟩
          exact (inductionHypothesis _ (deeper name _ isDirectory) _ (name :: trail) _ rfl).mpr
            ⟨next :: others, content, modified, by simp, isFile, reached⟩

/-- A walk from a path that names a place comes across the files below that place, if any.
If there is one, the place is a directory, and the path leads there. -/
theorem IsTree.file_mem_walk_iff {root found : Path} {trail : Trail}
    (named : root.trail? = some trail) :
    .file found ∈ disk.walk root ↔
      ∃ names content modified, names ≠ [] ∧
        disk.node? (names.reverse ++ trail) = some (.file content modified) ∧
        found = descend root names := by
  have isDirectory (inside : ∃ names content modified, names ≠ [] ∧
      disk.node? (names.reverse ++ trail) = some (.file content modified) ∧
      found = descend root names) : disk.node? trail = some .directory := by
    obtain ⟨names, content, modified, nonempty, isFile, _⟩ := inside
    exact tree.directory_of_append isFile (by simpa using nonempty)
  unfold walk
  cases led : disk.locate .target root with
  | error error =>
    refine iff_of_false List.not_mem_nil fun inside => ?_
    rw [tree.locate_of_node? named .target (isDirectory inside) (Or.inl rfl)] at led
    exact absurd led (by simp)
  | ok place =>
    obtain rfl := tree.eq_of_locate named led
    by_cases standing : disk.node? place = some .directory
    · rw [← tree.file_mem_visitsBelow_iff [place] place root found]
      simp [standing]
    · exact iff_of_false (by simp) fun inside => standing (isDirectory inside)

omit tree in
/-- Descending by one more name joins it at the end. -/
theorem descend_append (path : Path) (names : List String) (name : String) :
    descend path (names ++ [name]) = (descend path names).join ⟨name⟩ := by
  rw [descend, List.foldl_append, List.foldl_cons, List.foldl_nil, descend]

/-- Descending from a path that names a place to something names the place of that. -/
theorem IsTree.trail?_descend {path : Path} {trail : Trail} (named : path.trail? = some trail)
    {names : List String} {node : Node}
    (standing : disk.node? (names.reverse ++ trail) = some node) :
    (descend path names).trail? = some (names.reverse ++ trail) := by
  induction names using List.reverseRecOn generalizing node with
  | nil => exact named
  | append_singleton names name inductionHypothesis =>
    rw [List.reverse_append, List.reverse_singleton, List.append_assoc, List.singleton_append]
      at standing ⊢
    rw [descend_append]
    exact Path.trail?_join (inductionHypothesis (tree.inside name _ node standing))
      (tree.named name _ node standing)

/-- Descending from a path that names a place to something leads there. -/
theorem IsTree.locate_descend {path : Path} {trail : Trail} (named : path.trail? = some trail)
    {names : List String} {node : Node} (nonempty : names ≠ [])
    (standing : disk.node? (names.reverse ++ trail) = some node) (lookup : Lookup) :
    disk.locate lookup (descend path names) = .ok (names.reverse ++ trail) := by
  obtain ⟨front, name, rfl⟩ := (List.eq_nil_or_concat names).resolve_left nonempty
  rw [List.concat_eq_append] at standing ⊢
  rw [List.reverse_append, List.reverse_singleton, List.append_assoc, List.singleton_append]
    at standing ⊢
  rw [descend_append]
  exact tree.locate_join (tree.trail?_descend named (tree.inside name _ node standing)) lookup
    standing

/-- A file that a walk comes across lies below the start of the walk, and the path under
which the walk comes across it leads to it. -/
theorem IsTree.file_of_mem_walk {root found : Path} {trail : Trail}
    (named : root.trail? = some trail) (met : .file found ∈ disk.walk root) :
    ∃ modified content, disk.file? found = some (modified, content) ∧ found.isBelow root ∧
      disk.modified found = .ok modified ∧ disk.read found = .ok content := by
  obtain ⟨names, content, modified, nonempty, isFile, rfl⟩ := (tree.file_mem_walk_iff named).mp met
  have foundNamed := tree.trail?_descend named isFile
  have below : (descend root names).isBelow root :=
    (Path.isBelow_iff_of_trail? foundNamed named).mpr ⟨names.reverse, by simpa using nonempty, rfl⟩
  exact ⟨modified, content, file?_eq_some_iff.mpr ⟨_, foundNamed, isFile⟩, below,
    answers_of_locate (tree.locate_descend named nonempty isFile .target) isFile⟩

/-- A walk comes across every file below its start, under some spelling of its path. -/
theorem IsTree.mem_walk_of_file {root path : Path} {trail : Trail}
    (named : root.trail? = some trail) {modified : Timestamp} {content : List UInt8}
    (isFile : disk.file? path = some (modified, content)) (below : path.isBelow root) :
    ∃ found, found == path ∧ .file found ∈ disk.walk root := by
  obtain ⟨place, pathNamed, standing⟩ := file?_eq_some_iff.mp isFile
  obtain ⟨inner, nonempty, rfl⟩ := (Path.isBelow_iff_of_trail? pathNamed named).mp below
  rw [← List.reverse_reverse inner] at standing pathNamed
  exact ⟨descend root inner.reverse,
    Path.beq_of_trail? (tree.trail?_descend named standing) pathNamed,
    (tree.file_mem_walk_iff named).mpr
      ⟨inner.reverse, content, modified, by simpa using nonempty, standing, rfl⟩⟩

end Disk
end Papyrus
