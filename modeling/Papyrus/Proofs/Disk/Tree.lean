import Papyrus.Disk.Edit
import Papyrus.Proofs.Disk.Place
import Papyrus.Proofs.Table

/-!
# Trees of files and directories

On a disk without links that is a proper tree, following a path that names a place leads
to that place or fails. It succeeds for every directory, and for a file whenever the path
does not go on behind the file's name, not even with a slash. A lookup that may find its
last place free gives a place where a node can be put.
-/
namespace Papyrus.Disk

/-- A tree of files and directories: every entry has a proper name and stands in a
directory, and no entry is a link. -/
structure IsTree (disk : Disk) : Prop where
  named : ∀ name above node, disk.node? (name :: above) = some node → IsName name
  inside : ∀ name above node, disk.node? (name :: above) = some node →
    disk.node? above = some .directory
  linkless : ∀ trail target, disk.node? trail ≠ some (.link target)

/-- The root directory alone is a tree. -/
theorem empty_isTree : empty.IsTree where
  named name above node found := absurd found.symm (Option.some_ne_none node)
  inside name above node found := absurd found.symm (Option.some_ne_none node)
  linkless trail target := by cases trail <;> simp [node?, empty]

section Nodes

/-- Putting a node at a place changes that place alone. -/
theorem node?_set (disk : Disk) {trail : Trail} (node : Node) (other : Trail)
    (notRoot : trail ≠ []) :
    (disk.set trail node).node? other =
      if trail = other then some node else disk.node? other := by
  cases other with
  | nil => simp [node?, notRoot]
  | cons name above =>
    simp only [node?, set, Table.find?_insert, beq_iff_eq]

/-- Taking a place away takes away what lies at or below it, except the root directory. -/
theorem node?_clear (disk : Disk) (trail other : Trail) :
    (disk.clear trail).node? other =
      if trail <:+ other ∧ other ≠ [] then none else disk.node? other := by
  cases other with
  | nil => simp [node?]
  | cons name above =>
    simp only [node?, clear]
    rw [Table.find?_eraseIf _ _ _ fun left right same => by rw [eq_of_beq same]]
    simp [List.isSuffixOf_iff_suffix]

variable {disk : Disk} (tree : disk.IsTree)

include tree

/-- Whatever lies above something is a directory. -/
theorem IsTree.directory_of_suffix {trail above : Trail} {node : Node}
    (found : disk.node? trail = some node) (below : above <:+ trail) (differs : above ≠ trail) :
    disk.node? above = some .directory := by
  induction trail generalizing node with
  | nil => exact absurd (List.suffix_nil.mp below) differs
  | cons name rest inductionHypothesis =>
    have parent := tree.inside name rest node found
    rcases List.suffix_cons_iff.mp below with same | farther
    · exact absurd same differs
    · by_cases isParent : above = rest
      · exact isParent ▸ parent
      · exact inductionHypothesis parent farther isParent

/-- Where more names lead on to something, there is a directory. -/
theorem IsTree.directory_of_append {inner trail : Trail} {node : Node}
    (found : disk.node? (inner ++ trail) = some node) (nonempty : inner ≠ []) :
    disk.node? trail = some .directory := by
  refine tree.directory_of_suffix found (List.suffix_append inner trail) ?_
  intro same
  exact nonempty (List.append_left_eq_self.mp same.symm)

/-- All names on the way to something are proper. -/
theorem IsTree.isName_of_mem {trail : Trail} {node : Node} (found : disk.node? trail = some node)
    {name : String} (member : name ∈ trail) : IsName name := by
  induction trail generalizing node with
  | nil => exact absurd member List.not_mem_nil
  | cons first rest inductionHypothesis =>
    rcases List.mem_cons.mp member with rfl | isLater
    · exact tree.named name rest node found
    · exact inductionHypothesis (tree.inside first rest node found) isLater

/-- A file or directory can be put into a directory, in place of anything but a directory.
Nothing stood below what is replaced. -/
theorem IsTree.set {name : String} {above : Trail} {node : Node} (isName : IsName name)
    (parent : disk.node? above = some .directory)
    (replaceable : disk.node? (name :: above) ≠ some .directory)
    (notLink : ∀ target, node ≠ .link target) : (disk.set (name :: above) node).IsTree where
  named other rest otherNode found := by
    rw [node?_set disk node _ (List.cons_ne_nil name above)] at found
    split at found
    next same => exact (List.cons.inj same).1 ▸ isName
    next => exact tree.named other rest otherNode found
  inside other rest otherNode found := by
    have apart : name :: above ≠ above := fun same => by
      have := congrArg List.length same
      simp at this
    rw [node?_set disk node _ (List.cons_ne_nil name above)] at found ⊢
    split at found
    next same =>
      rw [← (List.cons.inj same).2, if_neg apart]
      exact parent
    next =>
      have directory := tree.inside other rest otherNode found
      rw [if_neg fun same : name :: above = rest => replaceable (same ▸ directory)]
      exact directory
  linkless trail target := by
    rw [node?_set disk node _ (List.cons_ne_nil name above)]
    split
    · exact fun same => notLink target (Option.some.inj same)
    · exact tree.linkless trail target

/-- Taking a place away with everything below it leaves a tree. -/
theorem IsTree.clear (trail : Trail) : (disk.clear trail).IsTree where
  named name above node found := by
    rw [node?_clear] at found
    split at found
    · exact absurd found.symm (Option.some_ne_none node)
    · exact tree.named name above node found
  inside name above node found := by
    rw [node?_clear] at found ⊢
    split at found
    next => exact absurd found.symm (Option.some_ne_none node)
    next outside =>
      have parentOutside : ¬ (trail <:+ above ∧ above ≠ []) := fun inside =>
        outside ⟨inside.1.trans (List.suffix_cons name above), List.cons_ne_nil name above⟩
      rw [if_neg parentOutside]
      exact tree.inside name above node found
  linkless other target := by
    rw [node?_clear]
    split
    · exact (Option.some_ne_none _).symm
    · exact tree.linkless other target

end Nodes

section Follow

variable {disk : Disk} (tree : disk.IsTree)

include tree

/-- One piece of a path on a tree. A piece that does not count stays where it is, and any
other one enters what it names; either way there has to be a directory to start from. -/
theorem IsTree.follow_cons (lookup : Lookup) (links : Nat) (trail : Trail) {piece : String}
    (rest : List String) (notParent : piece ≠ "..") :
    disk.follow lookup links trail (piece :: rest) =
      match disk.node? trail with
      | none => .error .notFound
      | some (.file ..) | some (.link _) => .error .notDirectory
      | some .directory =>
        if piece = "" ∨ piece = "." then disk.follow lookup links trail rest
        else if nameLimit < piece.utf8ByteSize then .error .nameTooLong
        else if (disk.node? (piece :: trail)).isSome then
          disk.follow lookup links (piece :: trail) rest
        else if rest.isEmpty && lookup.mayBeMissing then .ok (piece :: trail)
        else .error .notFound := by
  rw [follow]
  cases disk.node? trail with
  | none => rfl
  | some here =>
    cases here with
    | file content modified => rfl
    | link target => rfl
    | directory =>
      simp only [if_neg notParent]
      cases entry : disk.node? (piece :: trail) with
      | none => simp
      | some node =>
        cases node with
        | link target => exact absurd entry (tree.linkless _ target)
        | file content modified => simp
        | directory => simp

/-- What a successful step from a piece can be. -/
theorem IsTree.follow_cons_ok {lookup : Lookup} {links : Nat} {trail found : Trail}
    {piece : String} {rest : List String} (notParent : piece ≠ "..")
    (led : disk.follow lookup links trail (piece :: rest) = .ok found) :
    disk.node? trail = some .directory ∧
      (((piece = "" ∨ piece = ".") ∧ disk.follow lookup links trail rest = .ok found) ∨
        ((piece ≠ "" ∧ piece ≠ "." ∧ piece.utf8ByteSize ≤ nameLimit) ∧
          (((disk.node? (piece :: trail)).isSome ∧
              disk.follow lookup links (piece :: trail) rest = .ok found) ∨
            (disk.node? (piece :: trail) = none ∧ rest = [] ∧ found = piece :: trail)))) := by
  rw [tree.follow_cons lookup links trail rest notParent] at led
  split at led
  next => exact absurd led (by simp)
  next => exact absurd led (by simp)
  next => exact absurd led (by simp)
  next directory =>
    refine ⟨directory, ?_⟩
    split at led
    next skipped => exact Or.inl ⟨skipped, led⟩
    next counts =>
      obtain ⟨hasText, notHere⟩ := not_or.mp counts
      split at led
      next => exact absurd led (by simp)
      next short =>
        refine Or.inr ⟨⟨hasText, notHere, Nat.le_of_not_lt short⟩, ?_⟩
        split at led
        next present => exact Or.inl ⟨present, led⟩
        next missing =>
          split at led
          next last =>
            rw [Bool.and_eq_true, List.isEmpty_iff] at last
            exact Or.inr ⟨by simpa using missing, last.1, (Except.ok.inj led).symm⟩
          next => exact absurd led (by simp)

omit tree in
/-- A piece that does not count adds no name. -/
theorem namesOf_cons_skipped {piece : String} (rest : List String)
    (skipped : piece = "" ∨ piece = ".") : namesOf (piece :: rest) = namesOf rest := by
  rcases skipped with rfl | rfl <;> simp [namesOf]

omit tree in
/-- A piece that counts is the first name. -/
theorem namesOf_cons_counted {piece : String} (rest : List String) (hasText : piece ≠ "")
    (notHere : piece ≠ ".") : namesOf (piece :: rest) = piece :: namesOf rest := by
  simp [namesOf, hasText, notHere]

/-- A path without `..` leads nowhere but to the place of its names. -/
theorem IsTree.eq_of_follow {lookup : Lookup} {links : Nat} {trail found : Trail}
    {path : List String} (plain : ".." ∉ path)
    (led : disk.follow lookup links trail path = .ok found) :
    found = (namesOf path).reverse ++ trail := by
  induction path generalizing trail with
  | nil =>
    rw [follow] at led
    exact (Except.ok.inj led).symm
  | cons piece rest inductionHypothesis =>
    have notParent : piece ≠ ".." := fun same => plain (same ▸ List.mem_cons_self)
    have restPlain : ".." ∉ rest := fun member => plain (List.mem_cons_of_mem piece member)
    obtain ⟨_, ⟨skipped, restLed⟩ |
      ⟨⟨hasText, notHere, _⟩, ⟨_, restLed⟩ | ⟨_, rfl, rfl⟩⟩⟩ := tree.follow_cons_ok notParent led
    · rw [namesOf_cons_skipped rest skipped]
      exact inductionHypothesis restPlain restLed
    · rw [namesOf_cons_counted rest hasText notHere, List.reverse_cons, List.append_assoc]
      exact inductionHypothesis restPlain restLed
    · rw [namesOf_cons_counted [] hasText notHere]
      rfl

/-- A path without `..` leads to the place of its names if something stands there, unless
it goes on behind the name of a file.

The induction is on the pieces. Whatever is passed on the way lies above the place and so
is a directory, and its name is short enough because it is a name on the disk. -/
theorem IsTree.follow_of_node? {lookup : Lookup} {links : Nat} {trail : Trail} {node : Node}
    {path : List String} (plain : ".." ∉ path)
    (standing : disk.node? ((namesOf path).reverse ++ trail) = some node)
    (ends : node = .directory ∨ ∃ front name, path = front ++ [name] ∧ name ≠ "" ∧ name ≠ ".") :
    disk.follow lookup links trail path = .ok ((namesOf path).reverse ++ trail) := by
  induction path generalizing trail with
  | nil =>
    rw [follow]
    rfl
  | cons piece rest inductionHypothesis =>
    have notParent : piece ≠ ".." := fun same => plain (same ▸ List.mem_cons_self)
    have restPlain : ".." ∉ rest := fun member => plain (List.mem_cons_of_mem piece member)
    have restEnds (nonempty : rest ≠ []) :
        node = .directory ∨ ∃ front name, rest = front ++ [name] ∧ name ≠ "" ∧ name ≠ "." := by
      refine ends.imp_right ?_
      rintro ⟨front, name, spelled, counts⟩
      cases front with
      | nil => exact absurd (List.cons.inj spelled).2 nonempty
      | cons first others => exact ⟨others, name, (List.cons.inj spelled).2, counts⟩
    by_cases skipped : piece = "" ∨ piece = "."
    · rw [namesOf_cons_skipped rest skipped] at standing ⊢
      have here : disk.node? trail = some .directory := by
        by_cases ended : namesOf rest = []
        · -- No name follows, so the path ends in a piece that does not count.
          have isDirectory : node = .directory := by
            rcases ends with isDirectory | ⟨front, name, spelled, hasText, notHere⟩
            · exact isDirectory
            · have counted : name ∈ namesOf (piece :: rest) := by
                rw [spelled]
                simp [namesOf, hasText, notHere]
              rw [namesOf_cons_skipped rest skipped, ended] at counted
              exact absurd counted List.not_mem_nil
          rw [ended, isDirectory] at standing
          exact standing
        · exact tree.directory_of_append standing (by simpa using ended)
      rw [tree.follow_cons lookup links trail rest notParent, here]
      simp only [if_pos skipped]
      by_cases last : rest = []
      · rw [last, follow]
        rfl
      · exact inductionHypothesis restPlain standing (restEnds last)
    · obtain ⟨hasText, notHere⟩ := not_or.mp skipped
      rw [namesOf_cons_counted rest hasText notHere, List.reverse_cons, List.append_assoc,
        List.singleton_append] at standing ⊢
      have entered : ∃ entry, disk.node? (piece :: trail) = some entry := by
        by_cases same : piece :: trail = (namesOf rest).reverse ++ piece :: trail
        · exact ⟨node, same ▸ standing⟩
        · exact ⟨.directory, tree.directory_of_suffix standing (List.suffix_append _ _) same⟩
      obtain ⟨entry, present⟩ := entered
      have here := tree.inside piece trail entry present
      have short := (tree.named piece trail entry present).short
      rw [tree.follow_cons lookup links trail rest notParent, here]
      simp only [if_neg skipped, if_neg (Nat.not_lt.mpr short), present, Option.isSome_some,
        if_true]
      by_cases last : rest = []
      · rw [last, follow]
        rfl
      · exact inductionHypothesis restPlain standing (restEnds last)

/-- Where a path without `..` leads, something stands, or a node can be put into a
directory under a proper name. -/
theorem IsTree.place_of_follow {lookup : Lookup} {links : Nat} {trail found : Trail}
    {path : List String} (plain : ".." ∉ path)
    (whole : ∀ piece ∈ path, '/' ∉ piece.toList ∧ '\x00' ∉ piece.toList)
    (start : (disk.node? trail).isSome)
    (led : disk.follow lookup links trail path = .ok found) :
    (disk.node? found).isSome ∨ ∃ name above, found = name :: above ∧ IsName name ∧
      disk.node? above = some .directory := by
  induction path generalizing trail with
  | nil =>
    rw [follow] at led
    exact Or.inl (Except.ok.inj led ▸ start)
  | cons piece rest inductionHypothesis =>
    have notParent : piece ≠ ".." := fun same => plain (same ▸ List.mem_cons_self)
    have restPlain : ".." ∉ rest := fun member => plain (List.mem_cons_of_mem piece member)
    have restWhole : ∀ other ∈ rest, '/' ∉ other.toList ∧ '\x00' ∉ other.toList :=
      fun other member => whole other (List.mem_cons_of_mem piece member)
    obtain ⟨here, ⟨_, restLed⟩ | ⟨⟨hasText, notHere, short⟩, ⟨present, restLed⟩ | ⟨_, _, rfl⟩⟩⟩ :=
      tree.follow_cons_ok notParent led
    · exact inductionHypothesis restPlain restWhole start restLed
    · exact inductionHypothesis restPlain restWhole present restLed
    · obtain ⟨noSlash, noNul⟩ := whole piece List.mem_cons_self
      exact Or.inr ⟨piece, trail, rfl, ⟨hasText, notHere, notParent, noSlash, noNul, short⟩, here⟩

/-- A path that leads to a place other than a directory still leads there after a node has
been put into the place. The directories on the way are not touched. -/
theorem IsTree.follow_set {lookup : Lookup} {links : Nat} {trail found : Trail} {node : Node}
    {path : List String} (plain : ".." ∉ path) (notRoot : found ≠ [])
    (replaceable : disk.node? found ≠ some .directory) (after : (disk.set found node).IsTree)
    (led : disk.follow lookup links trail path = .ok found) :
    (disk.set found node).follow .target links trail path = .ok found := by
  induction path generalizing trail with
  | nil =>
    rw [follow] at led ⊢
    exact led
  | cons piece rest inductionHypothesis =>
    have notParent : piece ≠ ".." := fun same => plain (same ▸ List.mem_cons_self)
    have restPlain : ".." ∉ rest := fun member => plain (List.mem_cons_of_mem piece member)
    obtain ⟨here, step⟩ := tree.follow_cons_ok notParent led
    have stillHere : (disk.set found node).node? trail = some .directory := by
      have apart : found ≠ trail := fun same => replaceable (same ▸ here)
      rw [node?_set disk node trail notRoot, if_neg apart]
      exact here
    rw [after.follow_cons .target links trail rest notParent, stillHere]
    rcases step with ⟨skipped, restLed⟩ | ⟨⟨hasText, notHere, short⟩, step⟩
    · simp only [if_pos skipped]
      exact inductionHypothesis restPlain restLed
    · simp only [if_neg (not_or.mpr ⟨hasText, notHere⟩), if_neg (Nat.not_lt.mpr short)]
      rcases step with ⟨present, restLed⟩ | ⟨missing, rfl, rfl⟩
      · have stillPresent : ((disk.set found node).node? (piece :: trail)).isSome := by
          rw [node?_set disk node _ notRoot]
          split
          · rfl
          · exact present
        rw [if_pos stillPresent]
        exact inductionHypothesis restPlain restLed
      · have nowPresent : ((disk.set (piece :: trail) node).node? (piece :: trail)).isSome := by
          rw [node?_set disk node _ notRoot, if_pos rfl]
          rfl
        rw [if_pos nowPresent, follow]

end Follow

section Locate

variable {disk : Disk}

/-- What stands in the way of a path that is absolute is a NUL in its spelling, and nothing
else but its pieces. -/
theorem locate_of_isAbsolute {path : Path} (absolute : path.isAbsolute) (lookup : Lookup) :
    disk.locate lookup path =
      if '\x00' ∈ path.text.toList then .error .nulInName
      else disk.follow lookup linkLimit [] (pieces path.text) := by
  have hasText : path.text.isEmpty = false := by
    simpa using Path.text_ne_empty_of_isAbsolute absolute
  have startsAtRoot : isAbsolute path.text = true := absolute
  simp only [locate, hasText, String.contains_char_eq, decide_eq_true_eq, startsAtRoot, if_true,
    Bool.false_eq_true, if_false]

variable (tree : disk.IsTree) {path : Path} {trail : Trail} (names : path.trail? = some trail)

include tree names

/-- A path that names a place leads there or fails. -/
theorem IsTree.eq_of_locate {lookup : Lookup} {found : Trail}
    (led : disk.locate lookup path = .ok found) : found = trail := by
  obtain ⟨absolute, plain, counted⟩ := (Path.trail?_eq_some_iff_pieces path trail).mp names
  rw [locate_of_isAbsolute absolute] at led
  split at led
  · exact absurd led (by simp)
  · rw [tree.eq_of_follow plain led, counted, List.append_nil]

/-- A path that names a place leads there if something stands there, unless it goes on
behind the name of a file. -/
theorem IsTree.locate_of_node? {node : Node} (lookup : Lookup)
    (standing : disk.node? trail = some node)
    (ends : node = .directory ∨
      ∃ front name, pieces path.text = front ++ [name] ∧ name ≠ "" ∧ name ≠ ".") :
    disk.locate lookup path = .ok trail := by
  obtain ⟨absolute, plain, counted⟩ := (Path.trail?_eq_some_iff_pieces path trail).mp names
  have nulFree : '\x00' ∉ path.text.toList :=
    Path.nul_not_mem_text names fun name member => (tree.isName_of_mem standing member).nulFree
  have reached : (namesOf (pieces path.text)).reverse ++ [] = trail := by
    rw [counted, List.append_nil]
  rw [locate_of_isAbsolute absolute, if_neg nulFree,
    tree.follow_of_node? plain (reached ▸ standing) ends, reached]

/-- Joining the name of an entry to a path that names its directory leads to the entry. -/
theorem IsTree.locate_join {name : String} {node : Node} (lookup : Lookup)
    (standing : disk.node? (name :: trail) = some node) :
    disk.locate lookup (path.join ⟨name⟩) = .ok (name :: trail) := by
  have isName := tree.named name trail node standing
  obtain ⟨absolute, _, _⟩ := (Path.trail?_eq_some_iff_pieces path trail).mp names
  obtain ⟨front, spelled, _⟩ := Path.pieces_join (Path.text_ne_empty_of_isAbsolute absolute) isName
  exact tree.locate_of_node? (Path.trail?_join names isName) lookup standing
    (Or.inr ⟨front, name, spelled, isName.nonempty, isName.notHere⟩)

end Locate

section Files

/-- The file at the place that a path names: when it was changed last, and what it holds. -/
def file? (disk : Disk) (path : Path) : Option (Timestamp × List UInt8) :=
  match path.trail?.bind disk.node? with
  | some (.file content modified) => some (modified, content)
  | _ => none

variable {disk : Disk}

/-- Equal paths have the same file. -/
theorem file?_congr (disk : Disk) {left right : Path} (same : left == right) :
    disk.file? left = disk.file? right := by
  rw [file?, file?, Path.trail?_congr same]

/-- A path has a file when it names a place and the file stands there. -/
theorem file?_eq_some_iff {path : Path} {modified : Timestamp} {content : List UInt8} :
    disk.file? path = some (modified, content) ↔
      ∃ trail, path.trail? = some trail ∧ disk.node? trail = some (.file content modified) := by
  rw [file?, ← Option.bind_eq_some_iff]
  split
  next found => simp [found, and_comm]
  next notFile =>
    constructor
    · exact fun impossible => absurd impossible.symm (Option.some_ne_none _)
    · exact fun found => absurd found (notFile content modified)

/-- A path that leads to a file gives its time and its content. -/
theorem answers_of_locate {path : Path} {trail : Trail} {content : List UInt8}
    {modified : Timestamp} (led : disk.locate .target path = .ok trail)
    (isFile : disk.node? trail = some (.file content modified)) :
    disk.modified path = .ok modified ∧ disk.read path = .ok content := by
  have met : disk.stat path = .ok (.file content modified) := by
    rw [stat, led]
    simp only [bind, Except.bind, isFile]
    rfl
  rw [Disk.modified, read, met]
  exact ⟨rfl, rfl⟩

/-- A file that is put at the place of a path becomes the file of that path alone. -/
theorem file?_set_file {path : Path} {trail : Trail} (named : path.trail? = some trail)
    (notRoot : trail ≠ []) (content : List UInt8) (modified : Timestamp) (other : Path) :
    (disk.set trail (.file content modified)).file? other =
      if path == other then some (modified, content) else disk.file? other := by
  by_cases same : path == other
  · rw [if_pos same, file?_eq_some_iff, ← Path.trail?_congr same]
    exact ⟨trail, named, by rw [node?_set disk _ _ notRoot, if_pos rfl]⟩
  · rw [if_neg same, file?, file?]
    cases otherNamed : other.trail? with
    | none => rfl
    | some place =>
      have apart : trail ≠ place := by
        rintro rfl
        exact same (Path.beq_of_trail? named otherNamed)
      rw [Option.bind_some, Option.bind_some, node?_set disk _ _ notRoot, if_neg apart]

/-- A directory at a place that was free is the file of no path. -/
theorem file?_set_directory {trail : Trail} (free : disk.node? trail = none) (other : Path) :
    (disk.set trail .directory).file? other = disk.file? other := by
  have notRoot : trail ≠ [] := by
    rintro rfl
    exact absurd free (Option.some_ne_none _)
  rw [file?, file?]
  cases other.trail? with
  | none => rfl
  | some place =>
    rw [Option.bind_some, Option.bind_some, node?_set disk _ _ notRoot]
    by_cases same : trail = place
    · rw [if_pos same, ← same, free]
    · rw [if_neg same]

/-- Taking away the place of a path takes away the files at or below that path. -/
theorem file?_clear {path : Path} {trail : Trail} (named : path.trail? = some trail)
    (other : Path) :
    (disk.clear trail).file? other = if other.startsWith path then none else disk.file? other := by
  rw [file?, file?]
  cases otherNamed : other.trail? with
  | none => simp
  | some place =>
    rw [Option.bind_some, Option.bind_some, node?_clear]
    by_cases below : trail <:+ place
    · rw [if_pos ((Path.startsWith_iff_of_trail? otherNamed named).mpr below)]
      by_cases isRoot : place = []
      · simp [isRoot, node?]
      · rw [if_pos ⟨below, isRoot⟩]
    · rw [if_neg fun gone => below gone.1,
        if_neg fun isBelow => below ((Path.startsWith_iff_of_trail? otherNamed named).mp isBelow)]

end Files

end Papyrus.Disk
