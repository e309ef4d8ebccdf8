import Papyrus.Disk

/-!
# Walking a directory

A walk visits everything below a directory, depth first, the entries of each
directory in the order of their names. Links are followed: a link to a file is visited
as a file, a link to a directory as a directory. A link that leads nowhere, or back to
one of the directories that the walk is in, is a failure and is not entered; so every
walk ends.
-/
namespace Papyrus.Disk

/-- The entries of a directory, in the order of their names. -/
def children (disk : Disk) (trail : Trail) : List (String × Node) :=
  (disk.nodes.entries.filterMap fun entry =>
    match entry.1 with
    | name :: above => if above = trail then some (name, entry.2) else none
    | [] => none).mergeSort fun left right => left.1 ≤ right.1

/-- All trails at which something stands. -/
def places (disk : Disk) : List Trail := [] :: disk.nodes.keys

/-- The length of the longest trail. -/
def depth (disk : Disk) : Nat := (disk.places.map List.length).foldr max 0

/-- The places that are not among the directories being walked. -/
def outside (disk : Disk) (entered : List Trail) : List Trail :=
  disk.places.filter fun place => !entered.contains place

/-- An entry of a directory stands at a trail one name longer. -/
theorem mem_places_of_mem_children {disk : Disk} {trail : Trail} {name : String} {node : Node}
    (member : (name, node) ∈ disk.children trail) : name :: trail ∈ disk.places := by
  simp only [children, List.mem_mergeSort, List.mem_filterMap] at member
  obtain ⟨entry, present, matched⟩ := member
  split at matched
  · rename_i first above spelled
    split at matched
    · rename_i same
      have named : first = name := by simpa using congrArg (·.map Prod.fst) matched
      refine List.mem_cons_of_mem _ (List.mem_map.mpr ⟨entry, present, ?_⟩)
      rw [spelled, named, same]
    · simp at matched
  · simp at matched

/-- A node is found only at a place. -/
theorem mem_places_of_node? {disk : Disk} {trail : Trail} {node : Node}
    (found : disk.node? trail = some node) : trail ∈ disk.places := by
  cases trail with
  | nil => exact List.mem_cons_self
  | cons name above =>
    simp only [node?, Table.find?, Option.map_eq_some_iff] at found
    obtain ⟨entry, present, _⟩ := found
    have same : entry.1 = name :: above := by simpa using List.find?_some present
    exact List.mem_cons_of_mem _
      (List.mem_map.mpr ⟨entry, List.mem_of_find?_eq_some present, same⟩)

/-- No trail is longer than the depth. -/
theorem length_le_depth {disk : Disk} {trail : Trail} (present : trail ∈ disk.places) :
    trail.length ≤ disk.depth := by
  have bound (lengths : List Nat) (length : Nat) (member : length ∈ lengths) :
      length ≤ lengths.foldr max 0 := by
    induction lengths with
    | nil => simp at member
    | cons first rest inductionHypothesis =>
      simp only [List.foldr_cons]
      rcases List.mem_cons.mp member with same | later
      · omega
      · have := inductionHypothesis later
        omega
  exact bound _ _ (List.mem_map_of_mem present)

/-- Entering one more directory leaves no more places outside. -/
theorem outside_cons_le (disk : Disk) (entered : List Trail) (trail : Trail) :
    (disk.outside (trail :: entered)).length ≤ (disk.outside entered).length := by
  have narrower : disk.outside (trail :: entered) =
      (disk.outside entered).filter (· ≠ trail) := by
    simp only [outside, List.filter_filter]
    congr 1
    funext other
    by_cases same : other = trail <;> simp [same]
  rw [narrower]
  exact List.length_filter_le _ _

/-- Entering a place that was outside leaves fewer places outside. -/
theorem outside_cons_lt {disk : Disk} {entered : List Trail} {trail : Trail}
    (present : trail ∈ disk.places) (fresh : entered.contains trail = false) :
    (disk.outside (trail :: entered)).length < (disk.outside entered).length := by
  have narrower : disk.outside (trail :: entered) =
      (disk.outside entered).filter (· ≠ trail) := by
    simp only [outside, List.filter_filter]
    congr 1
    funext other
    by_cases same : other = trail <;> simp [same]
  rw [narrower]
  refine Nat.lt_of_le_of_ne (List.length_filter_le _ _) fun same => ?_
  have kept := List.length_filter_eq_length_iff.mp same trail
    (List.mem_filter.mpr ⟨present, by simpa using fresh⟩)
  simp at kept

/-- What a walk comes across below a directory. The directories being walked are
given by their trails, `trail` among them; `path` is how the walk came there. -/
def visitsBelow (disk : Disk) (entered : List Trail) (trail : Trail) (path : Path) :
    List Visit :=
  (disk.children trail).attach.flatMap fun child =>
    let below := path.join ⟨child.val.1⟩
    match child.val.2 with
    | .file .. => [.file below]
    | .directory =>
      .directory below ::
        visitsBelow disk ((child.val.1 :: trail) :: entered) (child.val.1 :: trail) below
    | .link _ =>
      match disk.follow .target linkLimit trail [child.val.1] with
      | .error _ => [.failure below]
      | .ok target =>
        match _ : disk.node? target with
        | some (.file ..) => [.file below]
        | some .directory =>
          if _ : entered.contains target = false then
            .directory below :: visitsBelow disk (target :: entered) target below
          else [.failure below]
        | _ => [.failure below]
  termination_by ((disk.outside entered).length, disk.depth - trail.length)
  decreasing_by
  · have deeper := length_le_depth (mem_places_of_mem_children child.property)
    simp only [List.length_cons] at deeper
    rcases Nat.lt_or_eq_of_le (outside_cons_le disk entered (child.val.1 :: trail)) with fewer | same
    · exact Prod.Lex.left _ _ fewer
    · rw [same]
      exact Prod.Lex.right _ (by simp only [List.length_cons]; omega)
  · exact Prod.Lex.left _ _ (outside_cons_lt (mem_places_of_node? ‹_›) ‹_›)

/-- What a walk comes across from a path on. A path that is no directory is not
walked. -/
def walk (disk : Disk) (path : Path) : List Visit :=
  match disk.locate .target path with
  | .error _ => []
  | .ok trail =>
    match disk.node? trail with
    | some .directory => .directory path :: disk.visitsBelow [trail] trail path
    | _ => []

/-- The files of a disk. -/
def source (disk : Disk) : FileSource := ⟨disk.modified, disk.read, disk.walk⟩

end Papyrus.Disk
