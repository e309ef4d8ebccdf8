import Papyrus.Proofs.Project.Template

/-!
# Paths below the project's own scripts

A dependency may be given relative to the project's own scripts, and the directory of these is a
template itself. What is put in for the scripts is searched for the placeholders that are filled in
later, the game and the name, but not for the mods, which were filled in before. So the dependency
lies below the directory that is indexed as the project's own unless that directory is given by the
mods. Then the placeholder for the mods stays in the path as it is written.
-/
namespace Papyrus

/-- A dependency is indexed behind the project's own scripts, if there are any, at its place among
the dependencies. -/
theorem Project.exists_place_of_dependency {project : Project} {label template : String}
    (workspace : Path) (listed : (label, template) ∈ project.dependencies.entries) :
    ∃ place, project.sortedDependencies[place]? = some (label, template) ∧
      (project.roots workspace)[(if project.scripts.isEmpty then 0 else 1) + place]? =
        some (workspace.join ⟨project.resolve template⟩) := by
  have sorted : (label, template) ∈ project.sortedDependencies := List.mem_mergeSort.mpr listed
  obtain ⟨place, found⟩ := List.mem_iff_getElem?.mp sorted
  refine ⟨place, found, ?_⟩
  have behind : (project.sortedDependencies.map (·.2))[place]? = some template := by
    rw [List.getElem?_map, found, Option.map_some]
  rw [Project.roots, List.getElem?_map, Project.templates]
  split
  · rw [Nat.zero_add, List.nil_append, behind, Option.map_some]
  · rw [Nat.add_comm, List.singleton_append, List.getElem?_cons_succ, behind, Option.map_some]

namespace Template

/-- The scripts of a project are given by a template that names other parts of the project, and
these have no braces. -/
structure OwnTemplate (project : Project) (own : List Piece) : Prop where
  spelled : project.scripts.toList = written own
  single : .hole .scripts ∉ own
  plain : ∀ placeholder : Placeholder, placeholder ≠ .scripts → Text.Plain (placeholder.value project)

namespace OwnTemplate

variable {project : Project} {own : List Piece} (isOwn : OwnTemplate project own)

include isOwn

/-- The placeholders in the template of the scripts stand for plain values. -/
theorem plain_of_mem {placeholder : Placeholder} (member : .hole placeholder ∈ own) :
    Text.Plain (placeholder.value project) :=
  isOwn.plain placeholder fun isScripts => isOwn.single (isScripts ▸ member)

/-- The project's own scripts are resolved at once. -/
theorem resolve_scripts : project.resolve project.scripts = String.ofList (meaning project own) := by
  rw [Project.resolve, isOwn.spelled, fill_written fun _ _ => isOwn.plain_of_mem,
    filled_eq_meaning fun placeholder _ => placeholder.mem_order]

/-- A path below the scripts has the game and the name of the scripts filled in, and the mods of
the scripts as they are written. -/
theorem resolve_below {below : String} (plainBelow : Text.Plain below.toList) :
    project.resolve ("\x7bscripts\x7d" ++ below) =
      String.ofList (filled project [.game, .name] own) ++ below := by
  have asTemplate : ("\x7bscripts\x7d" ++ below).toList =
      written [.hole .scripts, .literal below.toList plainBelow] := by
    have pattern : ("\x7bscripts\x7d" : String).toList = Placeholder.scripts.pattern := rfl
    rw [String.toList_append, pattern]
    simp [written, Piece.spelling]
  -- The mods are looked for before the scripts are put in, and there are none yet.
  have putIn : project.fill [.mods, .scripts] ("\x7bscripts\x7d" ++ below).toList =
      written (own ++ [.literal below.toList plainBelow]) := by
    rw [asTemplate, Project.fill, List.foldl_cons, replace_written_of_absent _ (by simp),
      List.foldl_cons, replace_written, List.foldl_nil]
    simp [written, Piece.spelling, Placeholder.value, isOwn.spelled]
  have later : project.resolve ("\x7bscripts\x7d" ++ below) = String.ofList
      (project.fill [.game, .name] (project.fill [.mods, .scripts]
        ("\x7bscripts\x7d" ++ below).toList)) := rfl
  rw [later, putIn, fill_written]
  · simp [filled, Piece.partValue, String.ofList_append]
  · intro placeholder listed _
    refine isOwn.plain placeholder ?_
    rintro rfl
    exact absurd listed (by decide)

/-- A path below the scripts lies in the directory of the scripts exactly if that directory is not
given by the mods. Otherwise there is a brace in the one path and none in the other. -/
theorem resolve_below_eq_iff {below : String} (plainBelow : Text.Plain below.toList) :
    project.resolve ("\x7bscripts\x7d" ++ below) = project.resolve project.scripts ++ below ↔
      .hole .mods ∉ own := by
  rw [isOwn.resolve_below plainBelow, isOwn.resolve_scripts]
  constructor
  · intro same named
    have texts := congrArg String.toList same
    simp only [String.toList_append, String.toList_ofList, List.append_cancel_right_eq] at texts
    obtain ⟨label, isPattern, _⟩ := Placeholder.mods.exists_pattern_eq
    have braced : '\x7b' ∈ filled project [.game, .name] own := by
      refine List.mem_flatMap.mpr ⟨_, named, ?_⟩
      rw [Piece.partValue, if_neg (by decide), isPattern]
      exact List.mem_cons_self
    rw [texts] at braced
    exact (plain_meaning fun _ => isOwn.plain_of_mem).1 braced
  · intro unnamed
    rw [filled_eq_meaning]
    intro placeholder member
    cases placeholder with
    | mods => exact absurd member unnamed
    | scripts => exact absurd member isOwn.single
    | game => decide
    | name => decide

end OwnTemplate

/-- A dependency below the project's own scripts, in a project whose other parts have no braces.

Of the placeholders in the scripts, the game and the name are filled in, and the mods are not. So
the dependency is indexed below the directory that is indexed as the project's own, exactly if the
scripts are not given by the mods. -/
theorem below_own_scripts_unless_given_by_mods (project : Project) (own : List Piece)
    (isOwn : OwnTemplate project own) (below : String) (plainBelow : Text.Plain below.toList) :
    let template := "\x7bscripts\x7d" ++ below
    project.resolve template = String.ofList (filled project [.game, .name] own) ++ below ∧
    project.resolve project.scripts = String.ofList (meaning project own) ∧
    (project.resolve template = project.resolve project.scripts ++ below ↔ .hole .mods ∉ own) ∧
    ∀ workspace : Path,
      (project.scripts ≠ "" → (project.roots workspace).head? =
        some (workspace.join ⟨project.resolve project.scripts⟩)) ∧
      ∀ label, (label, template) ∈ project.dependencies.entries → .hole .mods ∉ own →
        ∃ place, project.sortedDependencies[place]? = some (label, template) ∧
          (project.roots workspace)[(if project.scripts.isEmpty then 0 else 1) + place]? =
            some (workspace.join ⟨project.resolve project.scripts ++ below⟩) := by
  intro template
  have iffUnnamed := isOwn.resolve_below_eq_iff plainBelow
  refine ⟨isOwn.resolve_below plainBelow, isOwn.resolve_scripts, iffUnnamed, fun workspace => ⟨?_, ?_⟩⟩
  · intro present
    have hasText : project.scripts.isEmpty = false := by simpa using present
    rw [Project.roots, Project.templates, hasText]
    rfl
  · intro label listed unnamed
    rw [← iffUnnamed.mpr unnamed]
    exact Project.exists_place_of_dependency workspace listed

/-- A project whose scripts are given by its game and its name. -/
def door : Project where
  name := "Door"
  scripts := "src/\x7bgame\x7d/\x7bname\x7d"
  dependencies := Table.empty.insert "vendor" "\x7bscripts\x7d/vendor"

/-- The dependency lies below the sources of the door. -/
theorem vendor_lies_below_the_sources_of_door :
    let own : List Piece := [.literal "src/".toList (by decide +kernel), .hole .game,
      .literal ['/'] (by decide), .hole .name]
    OwnTemplate door own ∧ Text.Plain "/vendor".toList ∧
      door.resolve "\x7bscripts\x7d/vendor" = "src/sse/Door/vendor" ∧
      (door.roots ⟨"/work"⟩).head? = some ((⟨"/work"⟩ : Path).join ⟨"src/sse/Door"⟩) ∧
      ∃ place, door.sortedDependencies[place]? = some ("vendor", "\x7bscripts\x7d/vendor") ∧
        (door.roots ⟨"/work"⟩)[1 + place]? =
          some ((⟨"/work"⟩ : Path).join ⟨"src/sse/Door/vendor"⟩) := by
  intro own
  have isOwn : OwnTemplate door own := by
    refine ⟨by decide +kernel, by decide, fun placeholder differs => ?_⟩
    cases placeholder with
    | scripts => exact absurd rfl differs
    | mods => decide +kernel
    | game => decide +kernel
    | name => decide +kernel
  have plain : Text.Plain "/vendor".toList := by decide +kernel
  have means : String.ofList (meaning door own) = "src/sse/Door" := by decide +kernel
  obtain ⟨-, directory, below, roots⟩ :=
    below_own_scripts_unless_given_by_mods door own isOwn "/vendor" plain
  obtain ⟨first, behind⟩ := roots ⟨"/work"⟩
  have unnamed : .hole .mods ∉ own := by decide
  have resolves := below.mpr unnamed
  rw [directory, means] at resolves first behind
  exact ⟨isOwn, plain, resolves, first (by decide), behind "vendor" (by decide +kernel) unnamed⟩

/-- A project whose scripts are given by its mods. -/
def wall : Project where
  mods := "/games/mods"
  scripts := "\x7bmods\x7d/Wall/Source"
  dependencies := Table.empty.insert "vendor" "\x7bscripts\x7d/vendor"

/-- The directory of the scripts has the mods filled in, and the dependency that should lie below it
keeps the placeholder. -/
theorem vendor_keeps_the_mods_of_the_wall :
    OwnTemplate wall [.hole .mods, .literal "/Wall/Source".toList (by decide +kernel)] ∧
      Text.Plain "/vendor".toList ∧
      wall.resolve wall.scripts = "/games/mods/Wall/Source" ∧
      wall.resolve ("\x7bscripts\x7d" ++ "/vendor") = "\x7bmods\x7d/Wall/Source/vendor" ∧
      wall.resolve ("\x7bscripts\x7d" ++ "/vendor") ≠ wall.resolve wall.scripts ++ "/vendor" ∧
      (wall.roots ⟨"/work"⟩).map (·.text) =
        ["/games/mods/Wall/Source", "/work/\x7bmods\x7d/Wall/Source/vendor"] := by
  refine ⟨⟨by decide +kernel, by decide, fun placeholder differs => ?_⟩, by decide +kernel,
    by decide +kernel, by decide +kernel, by decide +kernel, by decide +kernel⟩
  cases placeholder with
  | scripts => exact absurd rfl differs
  | mods => decide +kernel
  | game => decide +kernel
  | name => decide +kernel

end Template
end Papyrus
