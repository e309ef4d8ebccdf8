import Mathlib.Data.List.Basic
import Papyrus.Path

/-!
# Paths up to spelling

Everything the library asks of a path depends on its components alone, so equal paths
are interchangeable. Lists of paths are read in the same way: a list holds a path when it
holds any spelling of it.
-/
namespace Papyrus.Path

/-- A path lies at or below another when its components begin with those of the other. -/
theorem startsWith_iff (path above : Path) :
    path.startsWith above ↔ above.components <+: path.components := by
  rw [startsWith, List.isPrefixOf_iff_prefix]

/-- Equal paths lie below the same paths. -/
theorem startsWith_congr {left right : Path} (same : left == right) (above : Path) :
    left.startsWith above = right.startsWith above := by
  rw [startsWith, startsWith, (beq_iff_components left right).mp same]

/-- Equal paths have the same stem. -/
theorem stem?_congr {left right : Path} (same : left == right) : left.stem? = right.stem? := by
  rw [stem?, stem?, fileName?, fileName?, (beq_iff_components left right).mp same]

/-- Equal paths have the same extension. -/
theorem extension?_congr {left right : Path} (same : left == right) :
    left.extension? = right.extension? := by
  rw [extension?, extension?, fileName?, fileName?, (beq_iff_components left right).mp same]

/-- A list filtered by a condition that respects equality holds exactly the paths of the
whole list that meet the condition. -/
theorem contains_filter (paths : List Path) (kept : Path → Bool) (path : Path)
    (respected : ∀ left right : Path, left == right → kept left = kept right) :
    (paths.filter kept).contains path = (paths.contains path && kept path) := by
  rw [Bool.eq_iff_iff, Bool.and_eq_true, List.contains_iff_exists_mem_beq,
    List.contains_iff_exists_mem_beq]
  constructor
  · rintro ⟨other, member, same⟩
    obtain ⟨listed, met⟩ := List.mem_filter.mp member
    exact ⟨⟨other, listed, same⟩, (respected path other same).trans met⟩
  · rintro ⟨⟨other, listed, same⟩, met⟩
    exact ⟨other, List.mem_filter.mpr ⟨listed, (respected path other same).symm.trans met⟩, same⟩

/-- Striking a path from a list that does not hold it changes nothing. -/
theorem filter_ne_of_not_contains (paths : List Path) (path : Path)
    (absent : paths.contains path = false) :
    paths.filter (fun other => !(other == path)) = paths := by
  rw [List.filter_eq_self]
  intro other member
  rw [Bool.not_eq_true']
  by_contra same
  rw [Bool.not_eq_false] at same
  rw [← Bool.not_eq_true, List.contains_iff_exists_mem_beq] at absent
  exact absent ⟨other, member, BEq.symm same⟩

/-- A list in which no spelling of a path is found does not hold it. -/
theorem find?_eq_none_iff (paths : List Path) (path : Path) :
    paths.find? (· == path) = none ↔ paths.contains path = false := by
  rw [List.find?_eq_none, ← Bool.not_eq_true, List.contains_iff_exists_mem_beq]
  constructor
  · rintro missing ⟨other, member, same⟩
    exact missing other member (BEq.symm same)
  · intro absent other member same
    exact absent ⟨other, member, BEq.symm same⟩

/-- Taking every path once leaves all of them. -/
theorem contains_eraseDups (paths : List Path) (path : Path) :
    paths.eraseDups.contains path = paths.contains path := by
  generalize size : paths.length = length
  induction length using Nat.strongRecOn generalizing paths with
  | ind length inductionHypothesis =>
    cases paths with
    | nil => rfl
    | cons first rest =>
      have fewer : (rest.filter fun other => !(other == first)).length < length := by
        rw [← size, List.length_cons]
        exact Nat.lt_succ_of_le (List.length_filter_le _ _)
      rw [List.eraseDups_cons, List.contains_cons, List.contains_cons,
        inductionHypothesis _ fewer _ rfl,
        contains_filter _ _ _ fun left right equal => by rw [BEq.congr_left equal]]
      cases path == first <;> simp

/-- A path at the end of a list is taken along exactly if it does not stand there before. -/
theorem eraseDups_concat (paths : List Path) (path : Path) :
    (paths ++ [path]).eraseDups =
      if paths.contains path then paths.eraseDups else paths.eraseDups ++ [path] := by
  generalize size : paths.length = length
  induction length using Nat.strongRecOn generalizing paths with
  | ind length inductionHypothesis =>
    cases paths with
    | nil => rfl
    | cons first rest =>
      have fewer : (rest.filter fun other => !(other == first)).length < length := by
        rw [← size, List.length_cons]
        exact Nat.lt_succ_of_le (List.length_filter_le _ _)
      rw [List.cons_append, List.eraseDups_cons, List.eraseDups_cons, List.filter_append,
        List.contains_cons]
      by_cases same : path == first
      · simp [same]
      · have kept : [path].filter (fun other => !(other == first)) = [path] := by simp [same]
        rw [kept, inductionHypothesis _ fewer _ rfl,
          contains_filter _ _ _ fun left right equal => by rw [BEq.congr_left equal]]
        simp only [same, Bool.not_false, Bool.and_true, Bool.false_or]
        split <;> rfl

end Papyrus.Path
