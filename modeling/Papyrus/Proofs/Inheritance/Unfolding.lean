import Papyrus.Proofs.Inheritance.Parent

/-!
# The chain of a script from the chain of its parent

A walk remembers the keys it has visited, and stops at the first that comes up again. The chain
of a script is told by the chain of its parent without any memory: the script comes first, and
is struck where it comes up again.

The two walks differ in one visited key only, the script's own. Where the walk from the parent
does not meet that key, it makes no difference. Where it does, the next key would be the
parent's, at which that walk started, so the script is the last one it meets. What is struck is
then the end of the parent's chain, and the two chains are the same circle, entered one step
apart.

This also says which scripts a chain holds: those that the keys lead to from parent to parent.
Two scripts that lead to each other stand on one circle, and their chains go round it once from
different starts.
-/
namespace Papyrus.Inheritance

/-- One key leads to another from parent to parent, in any number of steps. Only the script that
answers to a key leads on from it, and an empty key leads nowhere. -/
inductive Leads (index : Index) : String → String → Prop
  | here (key : String) : Leads index key key
  | up {key : String} {script : Script} {parent last : String} (hasText : ¬ key.isEmpty)
      (answered : index.scriptAt? key = some script) (extended : script.parent = some parent)
      (further : Leads index (Script.key parent) last) : Leads index key last

/-- What a key leads to leads on from that key. -/
theorem Leads.trans {index : Index} {first second third : String}
    (here : Leads index first second) (there : Leads index second third) :
    Leads index first third := by
  induction here with
  | here key => exact there
  | up hasText answered extended _ inductionHypothesis =>
    exact .up hasText answered extended (inductionHypothesis there)

section Heir

variable {index : Index} (valid : index.Valid)

include valid

/-- A walk that comes to a script whose parent it has visited ends there, and is shorter by that
script if it takes the key of the script for visited.

The induction follows the walk. The key of the parent is the one that the walk is at or one that
it has visited, and stays among them. -/
theorem chainFrom_of_met (visited : List String) (key : String) {heir parent : String}
    {script : Script} (answers : index.scriptAt? heir = some script)
    (extendsParent : script.parent = some parent) (behind : Script.key parent ∈ key :: visited)
    (met : ∃ other ∈ chainFrom index visited key, Script.key other.name = heir) :
    chainFrom index visited key = chainFrom index (visited ++ [heir]) key ++ [script] := by
  fun_induction chainFrom index visited key with
  | case1 visited key isEmpty => simp at met
  | case2 visited key hasText isNew unanswered => simp at met
  | case3 visited key hasText isNew other answered alone =>
    -- The only script met has no parent, so it is not the heir.
    obtain ⟨_, isOther, rfl⟩ := met
    obtain rfl := List.mem_singleton.mp isOther
    rw [key_name_of_scriptAt? valid answered, answered] at answers
    obtain rfl := Option.some.inj answers
    exact absurd (alone.symm.trans extendsParent) (by simp)
  | case4 visited key hasText isNew other answered next extended inductionHypothesis =>
    by_cases isHeir : key = heir
    · subst isHeir
      obtain rfl := Option.some.inj (answered.symm.trans answers)
      obtain rfl := Option.some.inj (extended.symm.trans extendsParent)
      have visitedHeir : (visited ++ [key]).contains key := by simp
      have visitedParent : (key :: visited).contains (Script.key next) := by simpa using behind
      rw [chainFrom_of_visited visitedHeir, chainFrom_of_visited visitedParent, List.nil_append]
    · have stillNew : (visited ++ [heir]).contains key = false := by simpa [isHeir] using isNew
      have metLater : ∃ later ∈ chainFrom index (key :: visited) (Script.key next),
          Script.key later.name = heir := by
        obtain ⟨later, member, isKey⟩ := met
        rcases List.mem_cons.mp member with rfl | member
        · exact absurd ((key_name_of_scriptAt? valid answered).symm.trans isKey) isHeir
        · exact ⟨later, member, isKey⟩
      rw [chainFrom_of_answered hasText stillNew answered, extended, Option.elim_some,
        inductionHypothesis (List.mem_cons_of_mem _ behind) metLater]
      rfl
  | case5 visited key hasText known => simp at met

variable {key parent : String} {script : Script} (hasText : ¬ key.isEmpty)
  (answered : index.scriptAt? key = some script) (extended : script.parent = some parent)

include hasText answered extended

/-- Where the chain of the parent comes back to a script, the script is its end, and stands
first on its own chain before the rest. -/
theorem chain_of_circle (met : ∃ other ∈ chain index parent, Script.key other.name = key) :
    ∃ rest, chain index parent = rest ++ [script] ∧ chainFrom index [] key = script :: rest := by
  refine ⟨chainFrom index [key] (Script.key parent), ?_, ?_⟩
  · exact chainFrom_of_met valid [] (Script.key parent) answered extended List.mem_cons_self met
  · rw [chainFrom_of_answered hasText rfl answered, extended, Option.elim_some]

/-- The chain of a script is the script and then the chain of its parent, from which the script
is struck. -/
theorem chainFrom_eq_cons_filter : chainFrom index [] key =
    script :: (chain index parent).filter fun other => Script.key other.name ≠ key := by
  by_cases met : ∃ other ∈ chain index parent, Script.key other.name = key
  · obtain ⟨rest, whole, unfolded⟩ := chain_of_circle valid hasText answered extended met
    have distinct := chain_keys_nodup valid parent
    have isKey : Script.key script.name = key := key_name_of_scriptAt? valid answered
    rw [whole, List.map_append, List.nodup_append] at distinct
    have differ : ∀ other ∈ rest, Script.key other.name ≠ key := by
      intro other member
      rw [← isKey]
      exact distinct.2.2 _ (List.mem_map_of_mem member) _ (by simp)
    rw [unfolded, whole, List.filter_append, List.filter_eq_self.mpr (by simpa using differ)]
    simp [isKey]
  · have absent : ∀ other ∈ chain index parent, Script.key other.name ≠ key :=
      fun other member isKey => met ⟨other, member, isKey⟩
    rw [chainFrom_of_answered hasText rfl answered, extended, Option.elim_some,
      List.filter_eq_self.mpr (by simpa using absent)]
    exact congrArg _ (chainFrom_of_absent valid [] (Script.key parent) key absent)

end Heir

section Circle

variable {index : Index} (valid : index.Valid)

include valid

/-- The key that a walk starts at leads to the keys of all scripts that the walk meets. -/
theorem leads_of_mem (visited : List String) (key : String) {script : Script}
    (met : script ∈ chainFrom index visited key) : Leads index key (Script.key script.name) := by
  fun_induction chainFrom index visited key with
  | case1 visited key isEmpty => simp at met
  | case2 visited key hasText isNew unanswered => simp at met
  | case3 visited key hasText isNew other answered alone =>
    obtain rfl := List.mem_singleton.mp met
    rw [key_name_of_scriptAt? valid answered]
    exact .here key
  | case4 visited key hasText isNew other answered parent extended inductionHypothesis =>
    rcases List.mem_cons.mp met with rfl | later
    · rw [key_name_of_scriptAt? valid answered]
      exact .here key
    · exact .up hasText answered extended (inductionHypothesis later)
  | case5 visited key hasText known => simp at met

/-- The script that answers to a key stands on the chain of every key that leads there. -/
theorem mem_of_leads {key last : String} (leads : Leads index key last) {script : Script}
    (hasText : ¬ last.isEmpty) (answered : index.scriptAt? last = some script) :
    script ∈ chainFrom index [] key := by
  induction leads with
  | here key =>
    rw [chainFrom_of_answered hasText rfl answered]
    exact List.mem_cons_self
  | @up key first parent last firstHasText firstAnswered extended _ inductionHypothesis =>
    rw [chainFrom_eq_cons_filter valid firstHasText firstAnswered extended]
    by_cases same : last = key
    · subst same
      obtain rfl := Option.some.inj (firstAnswered.symm.trans answered)
      exact List.mem_cons_self
    · refine List.mem_cons_of_mem _ (List.mem_filter.mpr ⟨inductionHypothesis hasText answered, ?_⟩)
      rw [key_name_of_scriptAt? valid answered]
      exact decide_eq_true same

/-- Keys that lead to each other have the same chain, up to where it starts.

The induction follows the way from the first key to the second. Each step goes to the parent of
a script that the parent leads back to, and turns the circle by one. -/
theorem rotated_of_leads {first second : String} (there : Leads index first second)
    (back : Leads index second first) :
    chainFrom index [] first ~r chainFrom index [] second := by
  induction there with
  | here key => exact List.IsRotated.refl _
  | @up key script parent last hasText answered extended further inductionHypothesis =>
    have around : script ∈ chain index parent :=
      mem_of_leads valid (further.trans back) hasText answered
    obtain ⟨rest, whole, unfolded⟩ := chain_of_circle valid hasText answered extended
      ⟨script, around, key_name_of_scriptAt? valid answered⟩
    have turned : chainFrom index [] key ~r chain index parent := by
      rw [unfolded, whole]
      exact List.isRotated_append (l := [script])
    exact turned.trans (inductionHypothesis (back.trans (.up hasText answered extended (.here _))))

end Circle

/-- The chain of a script unfolds, whatever the scripts extend.

A script without a parent is alone on its chain. A script with a parent comes first on its chain,
and the chain of the parent follows, without the script where it comes up there. The names and
the members along the chain are listed accordingly. So two scripts that stand on each other's
chains have the same names in the same order, from different starts, and the same members. -/
theorem chain_unfolds (operations : List Index.Operation) :
    let index := Index.empty.perform operations
    (∀ name script, Script.key name ≠ "" → index.script? name = some script →
      (script.parent = none →
        ancestry index name = [script.name] ∧ members index name = script.members) ∧
      ∀ parent, script.parent = some parent →
        let rest := (chain index parent).filter
          fun other => Script.key other.name ≠ Script.key name
        chain index name = script :: rest ∧
        ancestry index name = script.name :: rest.map (·.name) ∧
        members index name = script.members ++ rest.flatMap Script.members) ∧
    ∀ first second, Script.key second ∈ (ancestry index first).map Script.key →
      Script.key first ∈ (ancestry index second).map Script.key →
        ancestry index first ~r ancestry index second ∧
        (members index first).Perm (members index second) := by
  intro index
  have valid : index.Valid := Index.empty_valid.perform operations
  have leads {first second : String}
      (met : Script.key second ∈ (ancestry index first).map Script.key) :
      Leads index (Script.key first) (Script.key second) := by
    rw [ancestry, List.map_map] at met
    obtain ⟨script, member, isKey⟩ := List.mem_map.mp met
    exact isKey ▸ leads_of_mem valid [] (Script.key first) member
  refine ⟨?_, ?_⟩
  · intro name script named answered
    have hasText : ¬ (Script.key name).isEmpty := by rwa [String.isEmpty_iff]
    refine ⟨?_, ?_⟩
    · intro alone
      have unfolded : chain index name = [script] := by
        rw [chain, chainFrom_of_answered hasText rfl answered, alone, Option.elim_none]
      rw [ancestry, members, unfolded]
      exact ⟨rfl, List.flatMap_singleton ..⟩
    · intro parent extended rest
      have unfolded : chain index name = script :: rest :=
        chainFrom_eq_cons_filter valid hasText answered extended
      rw [ancestry, members, unfolded]
      exact ⟨rfl, rfl, List.flatMap_cons⟩
  · intro first second secondMet firstMet
    have rotated : chain index first ~r chain index second :=
      rotated_of_leads valid (leads secondMet) (leads firstMet)
    exact ⟨rotated.map _, rotated.perm.flatMap_right _⟩

/-- A door, a wall and a gate that extend each other in a circle, and a tower that extends the
wall. -/
def ring : List Index.Operation :=
  let declared (name parent member : String) : Index.Operation :=
    let own : Symbol := ⟨member, .function, "Function in " ++ name, ""⟩
    .put ⟨name ++ ".psc"⟩ [own] (some ⟨name, some parent, [own], [], []⟩)
  [declared "Door" "wall" "Open", declared "Wall" "GATE" "Fall", declared "Gate" "door" "Shut",
    declared "Tower" "Wall" "Ring"]

/-- The chain of the wall ends with the door, which is struck behind the door itself. The tower
is on no circle, so nothing is struck behind it. The door and the gate have the same names and
members in different orders. -/
theorem ring_unfolds :
    let index := Index.empty.perform ring
    let wall := chain index "wall"
    ∃ door tower, index.script? "DOOR" = some door ∧ index.script? "tower" = some tower ∧
      ancestry index "wall" = ["Wall", "Gate", "Door"] ∧
      chain index "DOOR" = door :: (wall.filter fun other => Script.key other.name ≠ "door") ∧
      ancestry index "DOOR" = ["Door", "Wall", "Gate"] ∧
      chain index "tower" = tower ::
        ((chain index "Wall").filter fun other => Script.key other.name ≠ "tower") ∧
      ancestry index "tower" = ["Tower", "Wall", "Gate", "Door"] ∧
      ancestry index "Door" ~r ancestry index "Gate" ∧
      (members index "Door").Perm (members index "Gate") ∧
      members index "Door" ≠ members index "Gate" := by
  intro index wall
  obtain ⟨unfolds, circular⟩ := chain_unfolds ring
  let own (name member : String) : Symbol := ⟨member, .function, "Function in " ++ name, ""⟩
  let door : Script := ⟨"Door", some "wall", [own "Door" "Open"], [], []⟩
  let tower : Script := ⟨"Tower", some "Wall", [own "Tower" "Ring"], [], []⟩
  have doorAnswers : index.script? "DOOR" = some door := by decide +kernel
  have towerAnswers : index.script? "tower" = some tower := by decide +kernel
  obtain ⟨doorChain, -, -⟩ :=
    (unfolds "DOOR" door (by decide) doorAnswers).2 "wall" rfl
  obtain ⟨towerChain, -, -⟩ :=
    (unfolds "tower" tower (by decide) towerAnswers).2 "Wall" rfl
  obtain ⟨rotated, permuted⟩ :=
    circular "Door" "Gate" (by decide +kernel) (by decide +kernel)
  exact ⟨door, tower, doorAnswers, towerAnswers, by decide +kernel, doorChain, by decide +kernel,
    towerChain, by decide +kernel, rotated, permuted, by decide +kernel⟩

end Papyrus.Inheritance
