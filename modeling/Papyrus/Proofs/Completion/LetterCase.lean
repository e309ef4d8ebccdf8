import Mathlib.Data.List.Forall2
import Papyrus.Completion.Query
import Papyrus.Proofs.Index.History
import Papyrus.Proofs.Inheritance.Parent

/-!
# The letter case of script names

Names of scripts and of parents may be spelled in any letter case. Two histories that differ
in nothing else lead to two indexes that answer alike, each asked in a letter case of its own.

This is a statement about two runs, so what is carried along is a relation of two indexes:
every key lists the same files in the same order, and every file has the same script in both,
up to the spelling of names. Keys are what the two runs have in common. A walk keeps to keys
from its start to its end, in what it looks up and in what it takes for visited; were a name
compared as it is spelled anywhere on the way, the two walks would part there.
-/
namespace Papyrus

section Related

universe u v

variable {α : Type u} {β : Type v} {relation : α → β → Prop}

/-- What is related to nothing is nothing. -/
theorem rel_none_iff {right : Option β} : Option.Rel relation none right ↔ right = none := by
  cases right <;> simp

/-- What is related to a value is a related value. -/
theorem rel_some_iff {value : α} {right : Option β} : Option.Rel relation (some value) right ↔
    ∃ other, right = some other ∧ relation value other := by
  cases right <;> simp

/-- Of two related options both hold a value or neither. -/
theorem isSome_eq_of_rel {left : Option α} {right : Option β}
    (related : Option.Rel relation left right) : left.isSome = right.isSome := by
  cases related <;> rfl

end Related

namespace Text

/-- An ASCII letter and the same letter in lower case. -/
def CapitalOf (upper lower : Char) : Prop :=
  'A' ≤ upper ∧ upper ≤ 'Z' ∧ lower.toNat = upper.toNat + 32

/-- Two names that differ at most in the case of ASCII letters. -/
def Recased (left right : String) : Prop :=
  List.Forall₂ (fun c d => c = d ∨ CapitalOf c d ∨ CapitalOf d c) left.toList right.toList

/-- Only the ASCII capitals have a lower case. -/
theorem toNat_toLower (c : Char) :
    c.toLower.toNat = if 65 ≤ c.toNat ∧ c.toNat ≤ 90 then c.toNat + 32 else c.toNat := by
  unfold Char.toLower
  split
  next isCapital =>
    have inRange : 65 ≤ c.toNat ∧ c.toNat ≤ 90 := isCapital
    rw [if_pos inRange]
    change (c.val + 32).toNat = _
    rw [UInt32.toNat_add]
    change (c.toNat + 32) % 2 ^ 32 = _
    omega
  next isOther =>
    have outside : ¬ (65 ≤ c.toNat ∧ c.toNat ≤ 90) := isOther
    rw [if_neg outside]

/-- Two characters have the same lower case if they are equal or the two cases of a letter. -/
theorem toLower_eq_iff (c d : Char) :
    c.toLower = d.toLower ↔ c = d ∨ CapitalOf c d ∨ CapitalOf d c := by
  have bounds (upper : Char) : 'A' ≤ upper ∧ upper ≤ 'Z' ↔ 65 ≤ upper.toNat ∧ upper.toNat ≤ 90 :=
    Iff.rfl
  rw [← Char.toNat_inj, ← Char.toNat_inj, toNat_toLower, toNat_toLower]
  simp only [CapitalOf, ← and_assoc, bounds]
  grind

end Text

namespace Script

/-- Names that differ in case alone have the same key, and no others do. -/
theorem key_eq_iff (left right : String) : key left = key right ↔ Text.Recased left right := by
  rw [key, key, Text.foldCase, Text.foldCase, String.ofList_inj, ← List.forall₂_eq_eq_eq,
    List.forall₂_map_left_iff, List.forall₂_map_right_iff, Text.Recased]
  simp only [Text.toLower_eq_iff]

/-- Two scripts that differ at most in the letter case of their names and of the names of
their parents. -/
structure Respelled (left right : Script) : Prop where
  name : Text.Recased left.name right.name
  parent : Option.Rel Text.Recased left.parent right.parent
  functions : left.functions = right.functions
  events : left.events = right.events
  properties : left.properties = right.properties

/-- The spelling of names has no part in the members of a script. -/
theorem Respelled.members_eq {left right : Script} (respelled : left.Respelled right) :
    left.members = right.members := by
  rw [members, members, respelled.functions, respelled.events, respelled.properties]

end Script

namespace Index

namespace Operation

/-- Two changes that differ at most in the letter case of names in the script stored. -/
inductive Respelled : Operation → Operation → Prop
  | put (path : Path) (symbols : List Symbol) {left right : Option Script}
      (script : Option.Rel Script.Respelled left right) :
      Respelled (.put path symbols left) (.put path symbols right)
  | remove (path : Path) : Respelled (.remove path) (.remove path)
  | removeUnder (above : Path) : Respelled (.removeUnder above) (.removeUnder above)

variable {left right : Operation} (respelled : left.Respelled right)

include respelled

/-- The same paths are touched. -/
theorem Respelled.touches_eq (path : Path) : left.touches path = right.touches path := by
  cases respelled <;> rfl

/-- The same file is added to the list of a key. -/
theorem Respelled.newcomers_eq (key : String) : left.newcomers key = right.newcomers key := by
  cases respelled with
  | put path symbols script =>
    cases script with
    | none => rfl
    | some script =>
      simp only [newcomers, Option.any_some, (Script.key_eq_iff _ _).mpr script.name]
  | remove path => rfl
  | removeUnder above => rfl

/-- The same script is stored, up to spelling. -/
theorem Respelled.script (moment : Nat) : Option.Rel Script.Respelled
    ((left.stored? moment).bind (·.script)) ((right.stored? moment).bind (·.script)) := by
  cases respelled with
  | put path symbols script => exact script
  | remove path => exact .none
  | removeUnder above => exact .none

end Operation

/-- Two indexes that differ at most in the letter case of names. -/
structure Respelled (left right : Index) : Prop where
  leftValid : left.Valid
  rightValid : right.Valid
  declaring : ∀ key, left.declaring key = right.declaring key
  scripts : ∀ path,
    Option.Rel Script.Respelled (left.scripts.find? path) (right.scripts.find? path)

namespace Respelled

section Runs

/-- The empty index has no names. -/
theorem empty : Respelled Index.empty Index.empty where
  leftValid := empty_valid
  rightValid := empty_valid
  declaring _ := rfl
  scripts _ := .none

/-- A change in two spellings keeps two indexes alike. -/
theorem apply {left right : Index} (respelled : left.Respelled right) {first second : Operation}
    (same : first.Respelled second) : (first.apply left).Respelled (second.apply right) where
  leftValid := respelled.leftValid.apply first
  rightValid := respelled.rightValid.apply second
  declaring key := by
    rw [respelled.leftValid.declaring_apply, respelled.rightValid.declaring_apply,
      respelled.declaring, same.newcomers_eq]
    simp only [same.touches_eq]
  scripts path := by
    -- What is stored for a path does not depend on the place of the change, so any will do.
    rw [respelled.leftValid.find?_apply_scripts first 0,
      respelled.rightValid.find?_apply_scripts second 0, same.touches_eq]
    split
    · exact same.script 0
    · exact respelled.scripts path

/-- Two histories that differ in letter case alone lead to indexes that do. -/
theorem perform {left right : Index} (respelled : left.Respelled right)
    {first second : List Operation} (same : List.Forall₂ Operation.Respelled first second) :
    (left.perform first).Respelled (right.perform second) := by
  induction same generalizing left right with
  | nil => exact respelled
  | cons head _ inductionHypothesis => exact inductionHypothesis (respelled.apply head)

end Runs

section Answers

variable {left right : Index} (respelled : left.Respelled right)

include respelled

/-- A key is answered alike in both. -/
theorem scriptAt? (key : String) :
    Option.Rel Script.Respelled (left.scriptAt? key) (right.scriptAt? key) := by
  rw [scriptAt?_eq, scriptAt?_eq, respelled.declaring]
  cases (right.declaring key).getLast? with
  | none => exact .none
  | some path => exact respelled.scripts path

/-- Both know the same keys, so they count as many scripts. -/
theorem scriptCount_eq : left.scriptCount = right.scriptCount := by
  refine Table.size_congr id (fun _ _ => beq_iff_eq) _ _ fun key => ?_
  rw [Bool.eq_iff_iff, respelled.leftValid.contains_declarers,
    respelled.rightValid.contains_declarers, respelled.declaring]

end Answers

end Respelled
end Index

namespace Inheritance

variable {left right : Index} (respelled : left.Respelled right)

include respelled

/-- Two walks from one key, with the same keys visited, meet the same scripts up to spelling.

The induction is on the walk through the first index. Where it goes on to a parent, the second
one has a parent of the same key, so both go on from one key again. -/
theorem chainFrom_respelled (visited : List String) (key : String) :
    List.Forall₂ Script.Respelled (chainFrom left visited key) (chainFrom right visited key) := by
  fun_induction chainFrom left visited key with
  | case1 visited key isEmpty =>
    rw [chainFrom, if_pos isEmpty]
    exact .nil
  | case2 visited key hasText isNew unanswered =>
    have alike := respelled.scriptAt? key
    rw [unanswered, rel_none_iff] at alike
    rw [chainFrom_of_unanswered alike]
    exact .nil
  | case3 visited key hasText isNew script answered alone =>
    have alike := respelled.scriptAt? key
    rw [answered, rel_some_iff] at alike
    obtain ⟨other, otherAnswered, same⟩ := alike
    have otherAlone := same.parent
    rw [alone, rel_none_iff] at otherAlone
    rw [chainFrom_of_answered hasText isNew otherAnswered, otherAlone]
    exact .cons same .nil
  | case4 visited key hasText isNew script answered parent extended inductionHypothesis =>
    have alike := respelled.scriptAt? key
    rw [answered, rel_some_iff] at alike
    obtain ⟨other, otherAnswered, same⟩ := alike
    have otherExtended := same.parent
    rw [extended, rel_some_iff] at otherExtended
    obtain ⟨otherParent, isParent, recased⟩ := otherExtended
    rw [chainFrom_of_answered hasText isNew otherAnswered, isParent, Option.elim_some,
      ← (Script.key_eq_iff parent otherParent).mpr recased]
    exact .cons same inductionHypothesis
  | case5 visited key hasText known =>
    rw [chainFrom_of_visited (by simpa using known)]
    exact .nil

/-- The chains of one name in two spellings. -/
theorem chain_respelled {name other : String} (same : Text.Recased name other) :
    List.Forall₂ Script.Respelled (chain left name) (chain right other) := by
  rw [chain, chain, (Script.key_eq_iff name other).mpr same]
  exact chainFrom_respelled respelled [] (Script.key other)

/-- The members of one script, asked for in two spellings. -/
theorem members_respelled {name other : String} (same : Text.Recased name other) :
    members left name = members right other := by
  have alongBoth :
      (chain left name).map Script.members = (chain right other).map Script.members := by
    rw [← List.forall₂_eq_eq_eq, List.forall₂_map_left_iff, List.forall₂_map_right_iff]
    exact (chain_respelled respelled same).imp fun _ _ script => script.members_eq
  rw [members, members, List.flatMap_def, List.flatMap_def, alongBoth]

end Inheritance

namespace Completion

/-- Letter case has no part in any answer about scripts.

Two histories that differ in the letter case of names alone are asked about one name in two
spellings. The members are the same, the names along the chain are the same but for case, the
script is known to both or to neither, both count as many scripts, and a general request
inherits the same from one parent in two spellings. -/
theorem letter_case_has_no_part {first second : List Index.Operation}
    (same : List.Forall₂ Index.Operation.Respelled first second)
    {name other : String} (sameName : Text.Recased name other)
    {parent otherParent : Option String} (sameParent : Option.Rel Text.Recased parent otherParent) :
    let left := Index.empty.perform first
    let right := Index.empty.perform second
    Inheritance.members left name = Inheritance.members right other ∧
    List.Forall₂ Text.Recased (Inheritance.ancestry left name) (Inheritance.ancestry right other) ∧
    (left.script? name).isSome = (right.script? other).isSome ∧
    left.scriptCount = right.scriptCount ∧
    inherited left parent = inherited right otherParent ∧
    ∀ files, queryOver left files (.general parent) =
      queryOver right files (.general otherParent) := by
  intro left right
  have respelled : left.Respelled right := Index.Respelled.empty.perform same
  have inheritSame : inherited left parent = inherited right otherParent := by
    cases sameParent with
    | none => rfl
    | some recased => rw [inherited, inherited, Inheritance.members_respelled respelled recased]
  refine ⟨Inheritance.members_respelled respelled sameName, ?_, ?_, respelled.scriptCount_eq,
    inheritSame, ?_⟩
  · rw [Inheritance.ancestry, Inheritance.ancestry, List.forall₂_map_left_iff,
      List.forall₂_map_right_iff]
    exact (Inheritance.chain_respelled respelled sameName).imp fun _ _ script => script.name
  · rw [Index.script?, Index.script?, (Script.key_eq_iff name other).mpr sameName]
    exact isSome_eq_of_rel (respelled.scriptAt? (Script.key other))
  · intro files
    rw [queryOver, queryOver, inheritSame]

/-- A door and a wall that extend each other, under the given names. A third file takes the
name of the door, in the spelling of the last of the names, and is removed again. -/
def circle (door wall gate : String) : List Index.Operation :=
  let opens : Symbol := ⟨"Open", .function, "Function in Door", ""⟩
  let falls : Symbol := ⟨"OnFall", .event, "Event in Wall", ""⟩
  [.put ⟨"Door.psc"⟩ [opens] (some ⟨door, some wall, [opens], [], []⟩),
    .put ⟨"Wall.psc"⟩ [falls] (some ⟨wall, some gate, [], [falls], []⟩),
    .put ⟨"Gate.psc"⟩ [] (some ⟨gate, none, [], [], []⟩),
    .remove ⟨"Gate.psc"⟩]

/-- A circle is gone round once in any spelling. -/
theorem letter_case_has_no_part_in_a_circle :
    let left := Index.empty.perform (circle "Door" "wall" "DOOR")
    let right := Index.empty.perform (circle "door" "WALL" "Door")
    List.Forall₂ Index.Operation.Respelled (circle "Door" "wall" "DOOR")
        (circle "door" "WALL" "Door") ∧
      Inheritance.ancestry left "doOR" = ["Door", "wall"] ∧
      List.Forall₂ Text.Recased (Inheritance.ancestry left "doOR")
        (Inheritance.ancestry right "DOor") ∧
      Inheritance.members left "doOR" = Inheritance.members right "DOor" ∧
      inherited left (some "wall") = inherited right (some "Wall") := by
  intro left right
  have recased {first second : String} (same : Script.key first = Script.key second) :
      Text.Recased first second := (Script.key_eq_iff first second).mp same
  have door : Text.Recased "Door" "door" := recased (by decide)
  have wall : Text.Recased "wall" "WALL" := recased (by decide)
  have gate : Text.Recased "DOOR" "Door" := recased (by decide)
  have same : List.Forall₂ Index.Operation.Respelled (circle "Door" "wall" "DOOR")
      (circle "door" "WALL" "Door") :=
    .cons (.put _ _ (.some ⟨door, .some wall, rfl, rfl, rfl⟩)) <|
    .cons (.put _ _ (.some ⟨wall, .some gate, rfl, rfl, rfl⟩)) <|
    .cons (.put _ _ (.some ⟨gate, .none, rfl, rfl, rfl⟩)) <|
    .cons (.remove _) .nil
  obtain ⟨sameMembers, sameAncestry, _, _, sameInherited, _⟩ :=
    letter_case_has_no_part same (recased (by decide) : Text.Recased "doOR" "DOor")
      (.some (recased (by decide)) : Option.Rel Text.Recased (some "wall") (some "Wall"))
  exact ⟨same, by decide +kernel, sameAncestry, sameMembers, sameInherited⟩

end Completion

end Papyrus
