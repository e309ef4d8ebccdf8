import Papyrus.Index

/-!
# Inheritance

The chain of a script starts with the script itself and goes on with the script it
extends, as long as one is indexed. It stops at a name that was met before, so a
circle of scripts is gone round once. Along the chain each script contributes its own
members, the most derived script first.
-/
namespace Papyrus.Inheritance

/-- The keys that are declared and not yet visited. -/
def unvisited (index : Index) (visited : List String) : List String :=
  index.declarers.keys.filter fun key => !visited.contains key

/-- A script that answers to a key is declared under it. -/
theorem mem_keys_of_scriptAt? {index : Index} {key : String} {script : Script}
    (found : index.scriptAt? key = some script) : key ∈ index.declarers.keys := by
  simp only [Index.scriptAt?, Option.bind_eq_bind, Option.bind_eq_some_iff, Table.find?,
    Option.map_eq_some_iff] at found
  obtain ⟨_, ⟨entry, present, _⟩, _⟩ := found
  have same : entry.1 = key := by simpa using List.find?_some present
  exact same ▸ List.mem_map_of_mem (List.mem_of_find?_eq_some present)

/-- Visiting a declared key that was not visited leaves fewer to visit. -/
theorem unvisited_length_lt {index : Index} {visited : List String} {key : String}
    (declared : key ∈ index.declarers.keys) (fresh : visited.contains key = false) :
    (unvisited index (key :: visited)).length < (unvisited index visited).length := by
  have narrower : unvisited index (key :: visited) =
      (unvisited index visited).filter (· ≠ key) := by
    simp only [unvisited, List.filter_filter]
    congr 1
    funext other
    by_cases same : other = key <;> simp [same]
  rw [narrower]
  refine Nat.lt_of_le_of_ne (List.length_filter_le _ _) fun same => ?_
  have kept := List.length_filter_eq_length_iff.mp same key
    (List.mem_filter.mpr ⟨declared, by simpa using fresh⟩)
  simp at kept

/-- The scripts met from a key on, given the keys met before. -/
def chainFrom (index : Index) (visited : List String) (key : String) : List Script :=
  if key.isEmpty then []
  else if _ : visited.contains key = false then
    match _ : index.scriptAt? key with
    | none => []
    | some script =>
      match script.parent with
      | none => [script]
      | some parent => script :: chainFrom index (key :: visited) (Script.key parent)
  else []
  termination_by (unvisited index visited).length
  decreasing_by exact unvisited_length_lt (mem_keys_of_scriptAt? ‹_›) ‹_›

/-- The chain of the script with a given name. -/
def chain (index : Index) (name : String) : List Script :=
  chainFrom index [] (Script.key name)

/-- The names along the chain, as they are declared. -/
def ancestry (index : Index) (name : String) : List String :=
  (chain index name).map (·.name)

/-- The members of a script and of all scripts along its chain. -/
def members (index : Index) (name : String) : List Symbol :=
  (chain index name).flatMap Script.members

end Papyrus.Inheritance
