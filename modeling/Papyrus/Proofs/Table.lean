import Mathlib.Data.Set.Card
import Papyrus.Table

/-!
# Tables as maps

A table is known by what it answers to each key. Storing and erasing change the answer
for the keys that are equal to the given one and leave every other answer alone. Equality
of keys is only an equivalence here, so these laws are about answers; the spelling of a
stored key is never compared. What happens to the entries themselves, with their places and
their spelling, is said apart.

The number of entries is the number of different keys. It is counted on a faithful image
of the keys, one that takes two keys to the same thing exactly when they are equal.
-/
namespace Papyrus.Table

universe u v w

variable {κ : Type u} [BEq κ] {ν : Type v}

/-- Nothing is found in the empty table. -/
@[simp]
theorem find?_empty (key : κ) : (empty : Table κ ν).find? key = none := rfl

/-- A key is present exactly when something is found under it. -/
theorem contains_eq_isSome (table : Table κ ν) (key : κ) :
    table.contains key = (table.find? key).isSome := by
  rw [contains, find?, Option.isSome_map, List.isSome_find?]

/-- The listed keys are those that are present, in some spelling. -/
theorem contains_keys [EquivBEq κ] (table : Table κ ν) (key : κ) :
    table.keys.contains key = table.contains key := by
  rw [keys, contains, List.contains_eq_any_beq, List.any_map]
  congr 1
  funext entry
  exact BEq.comm

/-- Erasing by a condition on the key takes away the answers for the keys that meet it.
The condition must not tell equal keys apart. -/
theorem find?_eraseIf (table : Table κ ν) (condition : κ → Bool) (key : κ)
    (respected : ∀ left right, left == right → condition left = condition right) :
    (table.eraseIf condition).find? key =
      if condition key then none else table.find? key := by
  simp only [find?, eraseIf, List.find?_filter]
  split
  next erased =>
    rw [Option.map_eq_none_iff, List.find?_eq_none]
    rintro entry _ met
    obtain ⟨kept, same⟩ := of_decide_eq_true met
    rw [respected entry.1 key same, erased] at kept
    exact Bool.false_ne_true kept
  next kept =>
    congr 2
    funext entry
    by_cases same : entry.1 == key
    · simp [same, respected entry.1 key same, kept]
    · simp [same]

section Entries

/-- Tables with the same entries are the same. -/
theorem eq_of_entries {left right : Table κ ν} (same : left.entries = right.entries) :
    left = right := by
  cases left
  cases right
  cases same
  rfl

/-- Erasing twice is erasing what meets one condition or the other. -/
theorem eraseIf_eraseIf (table : Table κ ν) (first second : κ → Bool) :
    (table.eraseIf first).eraseIf second = table.eraseIf fun key => first key || second key := by
  refine eq_of_entries ?_
  simp only [eraseIf, List.filter_filter, Bool.not_or, Bool.and_comm]

/-- Conditions that agree on all keys erase the same. -/
theorem eraseIf_congr {table : Table κ ν} {first second : κ → Bool}
    (agree : ∀ entry ∈ table.entries, first entry.1 = second entry.1) :
    table.eraseIf first = table.eraseIf second := by
  refine eq_of_entries (List.filter_congr fun entry member => ?_)
  rw [agree entry member]

/-- Nothing is erased by a condition that no key meets. -/
theorem eraseIf_eq_self {table : Table κ ν} {condition : κ → Bool}
    (unmet : ∀ entry ∈ table.entries, condition entry.1 = false) :
    table.eraseIf condition = table := by
  refine eq_of_entries (List.filter_eq_self.mpr fun entry member => ?_)
  rw [unmet entry member]
  rfl

/-- Erasing a key leaves all other entries in their places. -/
theorem entries_erase (table : Table κ ν) (key : κ) :
    (table.erase key).entries = table.entries.filter fun entry => !(entry.1 == key) := rfl

/-- Storing under a key that is present leaves all entries in their places. -/
theorem entries_insert {table : Table κ ν} {key : κ} (present : table.contains key) (value : ν) :
    (table.insert key value).entries =
      table.entries.map fun entry => if entry.1 == key then (entry.1, value) else entry := by
  rw [insert, dif_pos present]

end Entries

section Answers

variable [EquivBEq κ]

/-- Equal keys are answered alike, however they are spelled. -/
theorem find?_congr (table : Table κ ν) {left right : κ} (same : left == right) :
    table.find? left = table.find? right := by
  simp only [find?, BEq.congr_right same]

/-- An entry in the table answers for its key: no other entry has an equal one. -/
theorem find?_of_mem (table : Table κ ν) {entry : κ × ν} (member : entry ∈ table.entries) :
    table.find? entry.1 = some entry.2 := by
  obtain ⟨before, after, split⟩ := List.append_of_mem member
  have distinct := table.distinct
  rw [split, List.pairwise_append] at distinct
  have earlier : before.find? (·.1 == entry.1) = none := by
    rw [List.find?_eq_none]
    intro other isBefore
    rw [distinct.2.2 other isBefore entry List.mem_cons_self]
    exact Bool.false_ne_true
  simp [find?, split, List.find?_append, earlier]

/-- A stored value answers for its key, and no other answer changes. Storing under a
present key rewrites the one entry that has it; storing under a new key comes last, so an
earlier entry still answers first. -/
theorem find?_insert (table : Table κ ν) (key other : κ) (value : ν) :
    (table.insert key value).find? other =
      if key == other then some value else table.find? other := by
  unfold insert
  split
  next present =>
    have keyKept : ((fun entry : κ × ν => entry.1 == other) ∘ fun entry =>
        if entry.1 == key then (entry.1, value) else entry) = fun entry => entry.1 == other := by
      funext entry
      simp only [Function.comp_apply]
      split <;> rfl
    simp only [find?, List.find?_map, keyKept, Option.map_map]
    cases found : table.entries.find? (·.1 == other) with
    | none =>
      have differs : (key == other) = false := by
        by_contra same
        rw [Bool.not_eq_false] at same
        rw [contains_eq_isSome, find?_congr table same, find?, found] at present
        exact Bool.false_ne_true present
      simp [differs]
    | some entry =>
      have isOther : entry.1 == other := by simpa using List.find?_some found
      simp only [Option.map_some, Function.comp_apply, BEq.congr_left isOther,
        BEq.comm (a := other)]
      split <;> rfl
  next absent =>
    have missing : table.find? key = none := by
      simpa [contains_eq_isSome] using absent
    by_cases same : key == other
    · rw [find?_congr table same, find?, Option.map_eq_none_iff] at missing
      simp [find?, List.find?_append, missing, same]
    · simp [find?, List.find?_append, same]

/-- Erasing a key takes away its answer alone. -/
theorem find?_erase (table : Table κ ν) (key other : κ) :
    (table.erase key).find? other = if key == other then none else table.find? other := by
  rw [erase, find?_eraseIf table (· == key) other fun left right same => BEq.congr_left same,
    BEq.comm]

end Answers

/-- A value under a new key makes the table larger by one. -/
theorem size_insert (table : Table κ ν) (key : κ) (value : ν) :
    (table.insert key value).size =
      if table.contains key then table.size else table.size + 1 := by
  unfold insert
  split <;> simp [size]

section Size

variable {γ : Type w} (image : κ → γ)
  (faithful : ∀ left right : κ, left == right ↔ image left = image right)

include faithful

/-- The images of the listed keys differ from one another. -/
theorem nodup_images (table : Table κ ν) : (table.keys.map image).Nodup := by
  rw [keys, List.map_map, List.nodup_iff_pairwise_ne, List.pairwise_map]
  refine table.distinct.imp fun {first second} differ same => ?_
  rw [(faithful first.1 second.1).mpr same] at differ
  exact Bool.noConfusion differ

variable [EquivBEq κ]

/-- The images of the listed keys are those of the present keys. -/
theorem mem_images (table : Table κ ν) (value : γ) :
    value ∈ table.keys.map image ↔ ∃ key, image key = value ∧ table.contains key := by
  constructor
  · intro member
    obtain ⟨key, listed, same⟩ := List.mem_map.mp member
    refine ⟨key, same, ?_⟩
    rw [← contains_keys, List.contains_iff_exists_mem_beq]
    exact ⟨key, listed, BEq.rfl⟩
  · rintro ⟨key, same, present⟩
    rw [← contains_keys, List.contains_iff_exists_mem_beq] at present
    obtain ⟨listed, member, equal⟩ := present
    exact List.mem_map.mpr ⟨listed, member, ((faithful key listed).mp equal).symm.trans same⟩

/-- A table has as many entries as there are different present keys. The count
allows for infinity, so this says that they are finitely many, too. -/
theorem size_eq_encard (table : Table κ ν) :
    (table.size : ℕ∞) = Set.encard {value | ∃ key, image key = value ∧ table.contains key} := by
  classical
  have asSet : {value | ∃ key, image key = value ∧ table.contains key} =
      ((table.keys.map image).toFinset : Set γ) := by
    ext value
    rw [Set.mem_ofPred_eq, ← mem_images image faithful, Finset.mem_coe, List.mem_toFinset]
  rw [asSet, Set.encard_coe_eq_coe_finsetCard,
    List.toFinset_card_of_nodup (nodup_images image faithful table),
    List.length_map, keys, List.length_map, size]

/-- A table has as many entries as there are different present keys, as natural numbers. -/
theorem size_eq_ncard (table : Table κ ν) :
    table.size = Set.ncard {value | ∃ key, image key = value ∧ table.contains key} := by
  rw [Set.ncard, ← size_eq_encard image faithful, ENat.toNat_natCast]

/-- Tables in which the same keys are present have as many entries as each other. -/
theorem size_congr {μ : Type*} (table : Table κ ν) (other : Table κ μ)
    (same : ∀ key, table.contains key = other.contains key) : table.size = other.size := by
  rw [size_eq_ncard image faithful, size_eq_ncard image faithful]
  simp only [same]

end Size
end Papyrus.Table
