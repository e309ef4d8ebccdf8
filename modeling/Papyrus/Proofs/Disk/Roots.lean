import Mathlib.Data.List.Forall2
import Papyrus.Proofs.Disk.Spelling

/-!
# Walks from equal paths

A walk may start from any spelling of a directory: with a slash or a `.` at the end, through
links or not. From equal paths it comes across the same things in the same order, each of them
under equal paths. Equal paths lead to the same directory, if one of them leads to a directory
at all, and a name that is joined to equal paths leaves them equal.

Files are another matter: a slash behind the name of a file leads nowhere.
-/
namespace Papyrus

namespace Path

/-- What a spelling starts with, before its pieces are looked at. -/
def startOf : List Char → List Component
  | '/' :: _ => [.root]
  | ['.'] | '.' :: '/' :: _ => [.here]
  | _ => []

/-- The components of a spelling are what it starts with and what its pieces stand for. -/
theorem componentsOf_eq_append (text : List Char) :
    componentsOf text = startOf text ++ (text.splitOn '/').filterMap Component.ofPiece? := by
  unfold componentsOf startOf
  split <;> simp_all

/-- What a spelling starts with is not changed by a slash behind it, nor by what follows the
slash. -/
theorem startOf_append_slash {text : List Char} (nonempty : text ≠ []) (more : List Char) :
    startOf (text ++ '/' :: more) = startOf text := by
  fun_cases startOf text with
  | case1 | case2 | case3 => rfl
  | case4 _ notRoot notHere notBelow =>
    obtain ⟨first, rest, rfl⟩ := List.exists_cons_of_ne_nil nonempty
    have notSlash : first ≠ '/' := by
      rintro rfl
      exact notRoot rest rfl
    rw [List.cons_append]
    unfold startOf
    split
    next same => exact absurd (List.cons.inj same).1 notSlash
    next same => simp at same
    next tail same =>
      obtain ⟨rfl, behind⟩ := List.cons.inj same
      cases rest with
      | nil => exact absurd rfl notHere
      | cons second others =>
        obtain ⟨rfl, _⟩ := List.cons.inj behind
        exact absurd rfl (notBelow others)
    next => rfl

/-- What follows a slash adds the components that its pieces stand for. -/
theorem componentsOf_append_slash {text : List Char} (nonempty : text ≠ []) (more : List Char) :
    componentsOf (text ++ '/' :: more) =
      componentsOf text ++ (more.splitOn '/').filterMap Component.ofPiece? := by
  rw [componentsOf_eq_append, componentsOf_eq_append, startOf_append_slash nonempty,
    List.splitOn_append_cons_self, List.filterMap_append, List.append_assoc]

/-- Only the empty spelling has no components. What stands before the first slash is a
component of its own, or the slash is. -/
theorem componentsOf_ne_nil {text : List Char} (nonempty : text ≠ []) : componentsOf text ≠ [] := by
  have whole {part : List Char} (hasText : part ≠ []) (noSlash : '/' ∉ part) :
      componentsOf part ≠ [] := by
    rw [componentsOf_eq_append, List.splitOn_eq_singleton noSlash]
    by_cases isHere : part = ['.']
    · rw [isHere]
      exact List.cons_ne_nil _ _
    · have counts : Component.ofPiece? part ≠ none := by
        unfold Component.ofPiece?
        split <;> simp_all
      obtain ⟨component, read⟩ := Option.ne_none_iff_exists'.mp counts
      simp [read]
  by_cases slash : '/' ∈ text
  · obtain ⟨front, more, rfl, noSlash⟩ := List.eq_append_cons_of_mem slash
    by_cases atStart : front = []
    · rw [atStart]
      exact List.cons_ne_nil _ _
    · rw [componentsOf_append_slash atStart]
      exact List.append_ne_nil_of_left_ne_nil (whole atStart noSlash) _
  · exact whole nonempty slash

/-- A path that is equal to one that is not empty is not empty. -/
theorem text_ne_empty_of_beq {left right : Path} (same : left == right) (hasText : left.text ≠ "") :
    right.text ≠ "" := by
  intro empty
  have spelled : left.text.toList ≠ [] := by simpa using hasText
  apply componentsOf_ne_nil spelled
  rw [← components, (beq_iff_components left right).mp same, components, empty]
  rfl

/-- Joining a proper name adds it to the components. -/
theorem components_join {path : Path} {name : String} (hasText : path.text ≠ "")
    (isName : Disk.IsName name) :
    (path.join ⟨name⟩).components = path.components ++ [.name name] := by
  have onePiece : (name.toList.splitOn '/').filterMap Component.ofPiece? = [.name name] := by
    rw [List.splitOn_eq_singleton isName.whole, List.filterMap_cons, Component.ofPiece?_toList]
    simp [isName.nonempty, isName.notHere, isName.notParent]
  obtain ⟨front, joined, spelled⟩ := text_join hasText isName
  rw [components, components, joined]
  rcases spelled with same | same
  · have nonempty : front ≠ [] := by
      rw [← same]
      simpa using hasText
    rw [same, componentsOf_append_slash nonempty, onePiece]
  · rw [same]
    by_cases atStart : front = []
    · have rooted (more : List Char) : componentsOf ('/' :: more) =
          .root :: (more.splitOn '/').filterMap Component.ofPiece? := by
        rw [componentsOf_eq_append, List.splitOn_cons_eq_if_modifyHead]
        rfl
      rw [atStart, List.nil_append, List.nil_append, rooted, rooted, onePiece]
      rfl
    · rw [componentsOf_append_slash atStart, componentsOf_append_slash atStart, onePiece]
      simp [Component.ofPiece?]

/-- A proper name that is joined to equal paths leaves them equal. -/
theorem join_congr {left right : Path} (same : left == right) (hasText : left.text ≠ "")
    {name : String} (isName : Disk.IsName name) : left.join ⟨name⟩ == right.join ⟨name⟩ := by
  rw [beq_iff_components, components_join hasText isName,
    components_join (text_ne_empty_of_beq same hasText) isName,
    (beq_iff_components left right).mp same]

end Path

namespace Disk

section Follow

/-- Pieces that lead to a directory. -/
def LeadsInto (disk : Disk) (links : Nat) (trail : Trail) (path : List String) (place : Trail) :
    Prop :=
  disk.follow .target links trail path = .ok place ∧ disk.node? place = some .directory

/-- Nothing leads from a place that is no directory to a directory. -/
theorem LeadsInto.directory {disk : Disk} {links : Nat} {trail place : Trail} {path : List String}
    (leads : disk.LeadsInto links trail path place) : disk.node? trail = some .directory := by
  obtain ⟨led, standing⟩ := leads
  cases path with
  | nil =>
    rw [follow, Except.ok.injEq] at led
    rw [led, standing]
  | cons piece rest =>
    rw [follow] at led
    split at led <;> simp_all

/-- What follows a piece makes no difference if it leads to the directory from the same places,
also when the target of a link is put in front of it. -/
theorem leadsInto_cons_congr {disk : Disk} {links : Nat} {place : Trail} {left right : List String}
    (onward : ∀ trail,
      disk.LeadsInto links trail left place ↔ disk.LeadsInto links trail right place)
    (behind : ∀ fewer < links, ∀ trail target,
      disk.LeadsInto fewer trail (pieces target ++ left) place ↔
        disk.LeadsInto fewer trail (pieces target ++ right) place)
    (trail : Trail) (piece : String) :
    disk.LeadsInto links trail (piece :: left) place ↔
      disk.LeadsInto links trail (piece :: right) place := by
  rw [LeadsInto, LeadsInto, follow, follow]
  -- Both sides take the same branch: the piece alone decides on it, until a link is met.
  split
  next => rfl
  next => rfl
  next => rfl
  next =>
    split
    next => exact onward trail
    next =>
      split
      next => exact onward trail.tail
      next =>
        split
        next => rfl
        next =>
          simp only [Lookup.target, Bool.and_false, Bool.not_true, Bool.false_eq_true, if_false]
          split
          next => rfl
          next target _ =>
            cases links with
            | zero => rfl
            | succ fewer => exact behind fewer (Nat.lt_succ_self fewer) _ target
          next => exact onward (piece :: trail)

/-- A path to a directory leads where its names lead, also if it ends in pieces that do not
count: they ask for a directory, and there is one.

The induction is on the links that may still be followed, and then on the pieces. -/
theorem leadsInto_namesOf (disk : Disk) (links : Nat) (trail : Trail) (path : List String)
    (place : Trail) :
    disk.LeadsInto links trail (namesOf path) place ↔ disk.LeadsInto links trail path place := by
  induction links using Nat.strong_induction_on generalizing trail path with
  | h links fewerLinks =>
    induction path generalizing trail with
    | nil => rfl
    | cons piece rest inductionHypothesis =>
      by_cases skipped : piece = "" ∨ piece = "."
      · rw [namesOf_cons_skipped rest skipped, inductionHypothesis]
        by_cases standing : disk.node? trail = some .directory
        · simp only [LeadsInto, follow.eq_2, standing, if_pos skipped]
        · exact iff_of_false (fun leads => standing leads.directory)
            fun leads => standing leads.directory
      · obtain ⟨hasText, notHere⟩ := not_or.mp skipped
        rw [namesOf_cons_counted rest hasText notHere]
        refine leadsInto_cons_congr (inductionHypothesis ·) ?_ trail piece
        intro fewer isFewer start target
        rw [← fewerLinks fewer isFewer, ← fewerLinks fewer isFewer start (pieces target ++ rest),
          namesOf_append, namesOf_append, namesOf_namesOf]

end Follow

/-- A path leads to a directory if it leads to a place where one stands. -/
theorem isDirectory_iff (disk : Disk) (path : Path) :
    disk.isDirectory path ↔
      ∃ place, disk.locate .target path = .ok place ∧ disk.node? place = some .directory := by
  unfold isDirectory stat
  cases disk.locate .target path with
  | error error => simp [bind, Except.bind]
  | ok place =>
    simp only [bind, Except.bind, Except.ok.injEq, exists_eq_left']
    cases disk.node? place with
    | none => simp [throw, throwThe, MonadExceptOf.throw]
    | some node => cases node <;> simp [pure, Except.pure]

/-- Equal paths lead to the same directory, or none of them leads to a directory. -/
theorem locate_directory_congr (disk : Disk) {left right : Path} (same : left == right)
    (hasText : left.text ≠ "") (place : Trail) :
    (disk.locate .target left = .ok place ∧ disk.node? place = some .directory) ↔
      disk.locate .target right = .ok place ∧ disk.node? place = some .directory := by
  refine disk.locate_congr_of_follow .target same hasText (Path.text_ne_empty_of_beq same hasText)
    (fun answer => answer = .ok place ∧ disk.node? place = some .directory) fun start => ?_
  change disk.LeadsInto .. ↔ disk.LeadsInto ..
  rw [← leadsInto_namesOf, namesOf_pieces_congr same, leadsInto_namesOf]

end Disk

/-- Two things of one kind that are met under equal paths. -/
def Visit.Alike : Visit → Visit → Prop
  | .file left, .file right => left == right
  | .directory left, .directory right => left == right
  | .failure left, .failure right => left == right
  | _, _ => False

namespace Disk

section Walk

/-- A walk from a path to a directory starts with the directory and goes on below it. -/
theorem walk_of_directory {disk : Disk} {root : Path} {place : Trail}
    (leads : disk.locate .target root = .ok place ∧ disk.node? place = some .directory) :
    disk.walk root = .directory root :: disk.visitsBelow [place] place root := by
  simp only [walk, leads.1, leads.2]

variable {disk : Disk} (proper : disk.HasProperNames)

include proper

/-- Below a directory, a walk comes across the same things whatever path led there. -/
theorem HasProperNames.visitsBelow_alike {entered : List Trail} {trail : Trail} {left right : Path}
    (same : left == right) (hasText : left.text ≠ "") :
    List.Forall₂ Visit.Alike (disk.visitsBelow entered trail left)
      (disk.visitsBelow entered trail right) := by
  induction entered, trail, left using visitsBelow.induct disk generalizing right with
  | case1 entered trail left entering following =>
    rw [visitsBelow, visitsBelow]
    refine List.rel_flatMap (R := Eq) (List.forall₂_refl _) ?_
    rintro child _ rfl
    have standing := (mem_children_iff disk trail child.val.1 child.val.2).mp child.property
    have isName : IsName child.val.1 := proper _ _ _ standing
    have below := Path.join_congr same hasText isName
    have belowHasText := (endsInName_join hasText isName).text_ne_empty
    dsimp only
    split
    next => exact .cons below .nil
    next => exact .cons below (entering child below belowHasText)
    next =>
      split
      next => exact .cons below .nil
      next target led =>
        split
        next => exact .cons below .nil
        next isDirectory =>
          split
          next fresh =>
            exact .cons below (following child target isDirectory fresh below belowHasText)
          next => exact .cons below .nil
        next => exact .cons below .nil

/-- From equal paths, walks come across the same things in the same order. -/
theorem HasProperNames.walk_alike {left right : Path} (same : left == right) :
    List.Forall₂ Visit.Alike (disk.walk left) (disk.walk right) := by
  by_cases empty : left.text = ""
  · have alsoEmpty : right.text = "" := by
      by_contra hasText
      exact Path.text_ne_empty_of_beq (BEq.symm same) hasText empty
    simp [walk, locate, empty, alsoEmpty]
  · have sameDirectory := disk.locate_directory_congr same empty
    by_cases directory : disk.isDirectory left
    · obtain ⟨place, leads⟩ := (disk.isDirectory_iff left).mp directory
      rw [walk_of_directory leads, walk_of_directory ((sameDirectory place).mp leads)]
      exact .cons same (proper.visitsBelow_alike same empty)
    · have alsoNone : ¬ disk.isDirectory right := by
        rwa [isDirectory_iff, ← exists_congr sameDirectory, ← isDirectory_iff]
      rw [walk_eq_nil (Bool.eq_false_iff.mpr directory),
        walk_eq_nil (Bool.eq_false_iff.mpr alsoNone)]
      exact .nil

end Walk

end Disk

end Papyrus
