/-!
# Tables

A table maps keys to values and lists its entries in the order in which their keys
came in. Keys are compared by `==`, which may identify several spellings of one key;
the table holds at most one of them. Storing under a key that is present keeps the
spelling and the place that the key has.
-/
namespace Papyrus

universe u v

/-- Entries whose keys differ pairwise. -/
structure Table (κ : Type u) [BEq κ] (ν : Type v) where
  entries : List (κ × ν)
  distinct : entries.Pairwise fun first second => (first.1 == second.1) = false

namespace Table

variable {κ : Type u} [BEq κ] {ν : Type v}

/-- The table without entries. -/
def empty : Table κ ν := ⟨[], List.Pairwise.nil⟩

instance : Inhabited (Table κ ν) := ⟨empty⟩

/-- The keys, as they are spelled. -/
def keys (table : Table κ ν) : List κ := table.entries.map (·.1)

/-- How many keys are present. -/
def size (table : Table κ ν) : Nat := table.entries.length

/-- The value stored under a key. -/
def find? (table : Table κ ν) (key : κ) : Option ν :=
  (table.entries.find? (·.1 == key)).map (·.2)

/-- Whether a key is present. -/
def contains (table : Table κ ν) (key : κ) : Bool :=
  table.entries.any (·.1 == key)

/-- The table without the entries whose keys satisfy a condition. -/
def eraseIf (table : Table κ ν) (condition : κ → Bool) : Table κ ν where
  entries := table.entries.filter fun entry => !condition entry.1
  distinct := table.distinct.filter _

/-- The table without a key. -/
def erase (table : Table κ ν) (key : κ) : Table κ ν :=
  table.eraseIf (· == key)

/-- Store a value under a key, in place of the one that was there. -/
def insert (table : Table κ ν) (key : κ) (value : ν) : Table κ ν :=
  if present : table.contains key then {
    entries := table.entries.map fun entry =>
      if entry.1 == key then (entry.1, value) else entry
    distinct := by
      rw [List.pairwise_map]
      refine table.distinct.imp fun {first second} differ => ?_
      have key_kept (entry : κ × ν) :
          (if entry.1 == key then (entry.1, value) else entry).1 = entry.1 := by
        split <;> rfl
      rw [key_kept, key_kept]
      exact differ }
  else {
    entries := table.entries ++ [(key, value)]
    distinct := by
      rw [List.pairwise_append]
      refine ⟨table.distinct, List.pairwise_singleton _ _, ?_⟩
      intro entry member added isNew
      rw [List.mem_singleton.mp isNew]
      simp only [contains, List.any_eq_true, not_exists, not_and, Bool.not_eq_true] at present
      exact present entry member }

end Table
end Papyrus
