import Papyrus.Proofs.Disk.Walk

/-!
# Spellings that lead to the same place

Paths are equal by their components, but they are followed as they are spelled, and the
spelling can make a difference: behind the name of a file, a slash or a `.` leads nowhere. A
path that ends in a name leads where its names lead, through whatever links there are, and so
do all equal paths that end in a name.

The files that a walk comes across are such paths. So one file that is met under several
spellings is always answered alike.
-/
namespace Papyrus

/-- How a component is spelled between slashes, if it has to be. -/
def Component.piece? : Component → Option String
  | .root | .here => none
  | .parent => some ".."
  | .name text => some text

/-- A piece that counts is what its component is spelled like. -/
theorem Component.piece?_ofPiece? (piece : List Char) :
    (ofPiece? piece).bind piece? =
      if String.ofList piece ≠ "" ∧ String.ofList piece ≠ "." then some (String.ofList piece)
      else none := by
  have read := ofPiece?_toList (String.ofList piece)
  rw [String.toList_ofList] at read
  rw [read]
  by_cases skipped : String.ofList piece = "" ∨ String.ofList piece = "."
  · rw [if_pos skipped, if_neg fun both => skipped.elim both.1 both.2]
    rfl
  · rw [if_neg skipped, if_pos (not_or.mp skipped)]
    split
    next isParent => rw [isParent]; rfl
    next => rfl

namespace Disk

/-- Pieces of which the last one counts. -/
def EndsInName (path : List String) : Prop :=
  ∃ front name, path = front ++ [name] ∧ name ≠ "" ∧ name ≠ "."

section Names

variable {path : List String}

/-- Only the pieces that count are left of pieces that are put together. -/
theorem namesOf_append (front back : List String) :
    namesOf (front ++ back) = namesOf front ++ namesOf back :=
  List.filter_append front back

/-- Pieces that count stay. -/
theorem namesOf_namesOf (path : List String) : namesOf (namesOf path) = namesOf path := by
  simp [namesOf, List.filter_filter]

/-- Whatever pieces stand before it, the last one counts. -/
theorem EndsInName.append (ends : EndsInName path) (front : List String) :
    EndsInName (front ++ path) := by
  obtain ⟨before, name, rfl, counts⟩ := ends
  exact ⟨front ++ before, name, by rw [List.append_assoc], counts⟩

/-- What follows the first piece ends in a name too, if anything follows. -/
theorem EndsInName.tail {piece : String} {rest : List String} (ends : EndsInName (piece :: rest))
    (more : rest ≠ []) : EndsInName rest := by
  obtain ⟨front, name, spelled, counts⟩ := ends
  cases front with
  | nil => exact absurd (List.cons.inj spelled).2 more
  | cons first others => exact ⟨others, name, (List.cons.inj spelled).2, counts⟩

/-- The last piece stays last among those that count. -/
theorem EndsInName.namesOf (ends : EndsInName path) : EndsInName (namesOf path) := by
  obtain ⟨front, name, rfl, hasText, notHere⟩ := ends
  refine ⟨Disk.namesOf front, name, ?_, hasText, notHere⟩
  rw [namesOf_append, namesOf_cons_counted [] hasText notHere]
  rfl

/-- There is at least that name. -/
theorem EndsInName.ne_nil (ends : EndsInName path) : path ≠ [] := by
  obtain ⟨front, name, rfl, _⟩ := ends
  simp

end Names

section Follow

variable (disk : Disk) (lookup : Lookup)

/-- A piece that does not count makes no difference before another piece: either way there
has to be a directory. -/
theorem follow_cons_skipped (links : Nat) (trail : Trail) {piece : String} {rest : List String}
    (skipped : piece = "" ∨ piece = ".") (more : rest ≠ []) :
    disk.follow lookup links trail (piece :: rest) = disk.follow lookup links trail rest := by
  obtain ⟨next, others, rfl⟩ := List.exists_cons_of_ne_nil more
  rw [follow]
  cases standing : disk.node? trail with
  | none => rw [follow, standing]
  | some node =>
    cases node with
    | file content modified => rw [follow, standing]
    | link target => rw [follow, standing]
    | directory => simp only [if_pos skipped]

/-- What follows a piece makes no difference if it leads to the same places from everywhere,
also when the target of a link is put in front of it. -/
theorem follow_cons_congr {links : Nat} {piece : String} {left right : List String}
    (ended : left = [] ↔ right = [])
    (onward : ∀ trail, disk.follow lookup links trail left = disk.follow lookup links trail right)
    (behind : ∀ fewer < links, ∀ trail target,
      disk.follow lookup fewer trail (pieces target ++ left) =
        disk.follow lookup fewer trail (pieces target ++ right)) (trail : Trail) :
    disk.follow lookup links trail (piece :: left) =
      disk.follow lookup links trail (piece :: right) := by
  have sameEnd : left.isEmpty = right.isEmpty := by
    rw [Bool.eq_iff_iff, List.isEmpty_iff, List.isEmpty_iff, ended]
  rw [follow, follow]
  simp only [onward, sameEnd]
  cases links with
  | zero => rfl
  | succ fewer => simp only [behind fewer (Nat.lt_succ_self fewer)]

/-- A path that ends in a name leads where its names lead.

The induction is on the links that may still be followed, and then on the pieces: a link puts
the pieces of its target in front of those that are left. -/
theorem follow_namesOf (links : Nat) (trail : Trail) {path : List String} (ends : EndsInName path) :
    disk.follow lookup links trail (namesOf path) = disk.follow lookup links trail path := by
  induction links using Nat.strong_induction_on generalizing trail path with
  | h links fewerLinks =>
    induction path generalizing trail with
    | nil => rfl
    | cons piece rest inductionHypothesis =>
      by_cases skipped : piece = "" ∨ piece = "."
      · have more : rest ≠ [] := by
          rintro rfl
          exact ends.namesOf.ne_nil (namesOf_cons_skipped [] skipped)
        rw [namesOf_cons_skipped rest skipped,
          follow_cons_skipped disk lookup links trail skipped more]
        exact inductionHypothesis trail (ends.tail more)
      · obtain ⟨hasText, notHere⟩ := not_or.mp skipped
        rw [namesOf_cons_counted rest hasText notHere]
        by_cases last : rest = []
        · rw [last]
          rfl
        · have restEnds := ends.tail last
          refine follow_cons_congr disk lookup ?_ ?_ ?_ trail
          · exact iff_of_false restEnds.namesOf.ne_nil last
          · intro place
            exact inductionHypothesis place restEnds
          · intro fewer isFewer place target
            rw [← fewerLinks fewer isFewer place (restEnds.namesOf.append (pieces target)),
              ← fewerLinks fewer isFewer place (restEnds.append (pieces target)), namesOf_append,
              namesOf_append, namesOf_namesOf]

end Follow

section Locate

/-- The pieces of a path that count are its components as they are spelled. -/
theorem namesOf_pieces (path : Path) :
    namesOf (pieces path.text) = path.components.filterMap Component.piece? := by
  have inner (parts : List (List Char)) :
      namesOf (parts.map String.ofList) =
        (parts.filterMap Component.ofPiece?).filterMap Component.piece? := by
    rw [List.filterMap_filterMap, namesOf, List.filter_map, ← List.filterMap_eq_map, List.filterMap_filter]
    congr 1
    funext part
    rw [Component.piece?_ofPiece?]
    simp
  unfold Path.components Path.componentsOf pieces
  rw [inner]
  split <;> rfl

/-- The pieces of equal paths that count are the same. -/
theorem namesOf_pieces_congr {left right : Path} (same : left == right) :
    namesOf (pieces left.text) = namesOf (pieces right.text) := by
  rw [namesOf_pieces, namesOf_pieces, (Path.beq_iff_components left right).mp same]

/-- A path that ends in a name is not empty. -/
theorem EndsInName.text_ne_empty {text : String} (ends : EndsInName (pieces text)) : text ≠ "" := by
  rintro rfl
  exact ends.namesOf.ne_nil (by decide)

/-- Equal paths start at the same place, and either both or neither is spelled with a NUL. So
an answer is given for both of them or for neither, if this holds once their pieces are
followed. -/
theorem locate_congr_of_follow (disk : Disk) (lookup : Lookup) {left right : Path}
    (same : left == right) (leftHasText : left.text ≠ "") (rightHasText : right.text ≠ "")
    (IsAnswer : Except FileError Trail → Prop)
    (sameWay : ∀ start, IsAnswer (disk.follow lookup linkLimit start (pieces left.text)) ↔
      IsAnswer (disk.follow lookup linkLimit start (pieces right.text))) :
    IsAnswer (disk.locate lookup left) ↔ IsAnswer (disk.locate lookup right) := by
  have sameComponents := (Path.beq_iff_components left right).mp same
  have sameStart : isAbsolute left.text = isAbsolute right.text := by
    have sameIff := left.isAbsolute_iff_components
    rw [sameComponents, ← right.isAbsolute_iff_components] at sameIff
    exact Bool.eq_iff_iff.mpr sameIff
  have sameNul : left.text.contains '\x00' = right.text.contains '\x00' := by
    rw [Bool.eq_iff_iff]
    simp only [String.contains_char_eq, decide_eq_true_eq]
    rw [Path.nul_mem_text_iff, Path.nul_mem_text_iff, namesOf_pieces_congr same]
  have leftNotEmpty : left.text.isEmpty = false := by simpa using leftHasText
  have rightNotEmpty : right.text.isEmpty = false := by simpa using rightHasText
  simp only [locate, leftNotEmpty, rightNotEmpty, sameNul, sameStart]
  by_cases nul : right.text.contains '\x00'
  · simp only [nul, Bool.false_eq_true, if_true, if_false]
  · simp only [nul, Bool.false_eq_true, if_false, sameWay]

/-- Equal paths that end in a name lead to the same place. -/
theorem locate_congr (disk : Disk) (lookup : Lookup) {left right : Path} (same : left == right)
    (leftEnds : EndsInName (pieces left.text)) (rightEnds : EndsInName (pieces right.text)) :
    disk.locate lookup left = disk.locate lookup right := by
  refine (disk.locate_congr_of_follow lookup same leftEnds.text_ne_empty rightEnds.text_ne_empty
    (· = disk.locate lookup right) fun start => ?_).mpr rfl
  rw [← follow_namesOf disk lookup linkLimit start leftEnds, namesOf_pieces_congr same,
    follow_namesOf disk lookup linkLimit start rightEnds]

end Locate

section Walk

/-- Every entry has a proper name. Nothing is said about links, or about what entries stand
in. -/
def HasProperNames (disk : Disk) : Prop :=
  ∀ name above node, disk.node? (name :: above) = some node → IsName name

/-- Joining a proper name makes a path end in a name. -/
theorem endsInName_join {path : Path} {name : String} (hasText : path.text ≠ "")
    (isName : IsName name) : EndsInName (pieces (path.join ⟨name⟩).text) := by
  obtain ⟨front, joined, _⟩ := Path.pieces_join hasText isName
  exact ⟨front, name, joined, isName.nonempty, isName.notHere⟩

variable {disk : Disk} (proper : disk.HasProperNames)

include proper

/-- The files that a walk comes across below a directory end in a name: that of the entry that
is the file, or the link to it. -/
theorem HasProperNames.endsInName_of_mem_visitsBelow {entered : List Trail} {trail : Trail}
    {path found : Path} (hasText : path.text ≠ "")
    (met : .file found ∈ disk.visitsBelow entered trail path) : EndsInName (pieces found.text) := by
  induction entered, trail, path using visitsBelow.induct disk with
  | case1 entered trail path entering following =>
    rw [visitsBelow, List.mem_flatMap] at met
    obtain ⟨child, _, member⟩ := met
    have standing := (mem_children_iff disk trail child.val.1 child.val.2).mp child.property
    have ends := endsInName_join hasText (proper _ _ _ standing)
    have isBelow {below : Path} (same : Visit.file found ∈ [.file below])
        (belowEnds : EndsInName (pieces below.text)) : EndsInName (pieces found.text) := by
      rw [List.mem_singleton, Visit.file.injEq] at same
      exact same ▸ belowEnds
    dsimp only at member
    split at member
    next => exact isBelow member ends
    next =>
      rcases List.mem_cons.mp member with same | inside
      · exact absurd same (by simp)
      · exact entering child ends.text_ne_empty inside
    next =>
      split at member
      next => exact absurd member (by simp)
      next target led =>
        split at member
        next => exact isBelow member ends
        next isDirectory =>
          split at member
          next fresh =>
            rcases List.mem_cons.mp member with same | inside
            · exact absurd same (by simp)
            · exact following child target isDirectory fresh ends.text_ne_empty inside
          next => exact absurd member (by simp)
        next => exact absurd member (by simp)

/-- The files that a walk comes across end in a name. -/
theorem HasProperNames.endsInName_of_mem_walk {root found : Path}
    (met : .file found ∈ disk.walk root) : EndsInName (pieces found.text) := by
  have hasText : root.text ≠ "" := by
    intro empty
    simp [walk, locate, empty] at met
  unfold walk at met
  split at met
  next => exact absurd met List.not_mem_nil
  next =>
    split at met
    next =>
      rcases List.mem_cons.mp met with same | inside
      · exact absurd same (by simp)
      · exact proper.endsInName_of_mem_visitsBelow hasText inside
    next => exact absurd met List.not_mem_nil

/-- However a file is spelled where walks come across it, the spelling leads to the same
place. -/
theorem HasProperNames.locate_congr_of_mem_walk {leftRoot rightRoot left right : Path}
    (leftMet : .file left ∈ disk.walk leftRoot) (rightMet : .file right ∈ disk.walk rightRoot)
    (same : left == right) (lookup : Lookup) :
    disk.locate lookup left = disk.locate lookup right :=
  locate_congr disk lookup same (proper.endsInName_of_mem_walk leftMet)
    (proper.endsInName_of_mem_walk rightMet)

end Walk

end Disk
end Papyrus
