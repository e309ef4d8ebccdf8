import Papyrus.Inheritance
import Papyrus.Proofs.Index.Invariant

/-!
# Which scripts a chain is made of

The keys that are looked up from a name on form a sequence: the key of the name itself, then
the key of the parent of the script that answers, and so on, as long as a script answers and
names a parent. The sequence remembers nothing, so it goes round a circle of scripts for ever.

The chain is the beginning of that sequence, up to the first place at which it cannot go on:
there is no key, or an empty one, or one that no script answers to, or one that stood there
before. Nothing is assumed of the parents. They may be missing, belong to several files, or
lead back to any script on the way.
-/
namespace Papyrus.Inheritance

/-- The key that is looked up at a place of the sequence that starts with a name, if the
sequence gets there. -/
def keyAt? (index : Index) (name : String) : Nat → Option String
  | 0 => some (Script.key name)
  | place + 1 => do
    let key ← keyAt? index name place
    let script ← index.script? key
    let parent ← script.parent
    return Script.key parent

/-- The chain cannot go on at a place of the sequence. -/
def Ends (index : Index) (name : String) (place : Nat) : Prop :=
  match keyAt? index name place with
  | none => True
  | some key =>
    key = "" ∨ index.script? key = none ∨ ∃ earlier < place, keyAt? index name earlier = some key

/-- Some scripts are the ones that answer from a place of the sequence on, up to the first
place at which the chain cannot go on. -/
structure Stretch (index : Index) (name : String) (place : Nat) (scripts : List Script) :
    Prop where
  ends : Ends index name (place + scripts.length)
  answers : ∀ offset script, scripts[offset]? = some script →
    ¬ Ends index name (place + offset) ∧
      ∃ key, keyAt? index name (place + offset) = some key ∧ index.script? key = some script

section Sequence

variable {index : Index} {name : String} {place : Nat} {key : String}

/-- Whatever is looked up is a key. -/
theorem key_of_keyAt? (isKey : keyAt? index name place = some key) : Script.key key = key := by
  cases place with
  | zero =>
    obtain rfl := Option.some.inj isKey
    exact Script.key_key name
  | succ before =>
    simp only [keyAt?, Option.bind_eq_bind, Option.bind_eq_some_iff] at isKey
    obtain ⟨_, _, _, _, parent, _, isParent⟩ := isKey
    obtain rfl := Option.some.inj isParent
    exact Script.key_key parent

/-- A key that is looked up is answered as it stands. -/
theorem script?_of_keyAt? (isKey : keyAt? index name place = some key) :
    index.script? key = index.scriptAt? key := by
  rw [Index.script?, key_of_keyAt? isKey]

/-- Behind a script that answers, the sequence goes on with the key of its parent. -/
theorem keyAt?_succ {script : Script} (isKey : keyAt? index name place = some key)
    (answered : index.script? key = some script) :
    keyAt? index name (place + 1) = script.parent.map Script.key := by
  simp only [keyAt?, isKey, answered, Option.bind_eq_bind, Option.bind_some]
  cases script.parent <;> rfl

/-- At a key, the chain goes on unless the key is empty, is not answered or came before. -/
theorem ends_iff (isKey : keyAt? index name place = some key) :
    Ends index name place ↔ key = "" ∨ index.script? key = none ∨
      ∃ earlier < place, keyAt? index name earlier = some key := by
  rw [Ends, isKey]

/-- At a key that is answered and was not visited, the chain goes on, if the keys visited are
those at the earlier places. -/
theorem not_ends {visited : List String} {script : Script}
    (isKey : keyAt? index name place = some key)
    (earlier : ∀ other, visited.contains other ↔
      ∃ before < place, keyAt? index name before = some other)
    (hasText : ¬ key.isEmpty) (isNew : visited.contains key = false)
    (answered : index.script? key = some script) : ¬ Ends index name place := by
  rw [ends_iff isKey, answered, ← earlier, isNew]
  rintro (isEmpty | unanswered | wasMet)
  · exact hasText (String.isEmpty_iff.mpr isEmpty)
  · exact Option.some_ne_none script unanswered
  · exact Bool.false_ne_true wasMet

/-- Where there is no key, the chain cannot go on. -/
theorem ends_of_keyAt?_eq_none (noKey : keyAt? index name place = none) :
    Ends index name place := by
  rw [Ends, noKey]
  trivial

end Sequence

namespace Stretch

variable {index : Index} {name : String} {place : Nat}

/-- No script is met where the chain cannot go on. -/
theorem nil (ends : Ends index name place) : Stretch index name place [] where
  ends := ends
  answers offset script found := absurd found (by simp)

/-- A script that answers where the chain goes on comes before those met from the next place
on. -/
theorem cons {key : String} {script : Script} {rest : List Script}
    (isKey : keyAt? index name place = some key) (goesOn : ¬ Ends index name place)
    (answered : index.script? key = some script)
    (later : Stretch index name (place + 1) rest) :
    Stretch index name place (script :: rest) where
  ends := by
    rw [List.length_cons, Nat.add_comm rest.length 1, ← Nat.add_assoc]
    exact later.ends
  answers offset other found := by
    cases offset with
    | zero =>
      rw [List.getElem?_cons_zero, Option.some.injEq] at found
      exact ⟨goesOn, key, isKey, found ▸ answered⟩
    | succ before =>
      rw [List.getElem?_cons_succ] at found
      rw [Nat.add_comm before 1, ← Nat.add_assoc]
      exact later.answers before other found

end Stretch

/-- A walk meets the scripts of a stretch, if the keys it has visited are those at the earlier
places of the sequence.

The induction follows the walk. At each key the walk asks whether it is empty, was visited
and is answered, and these are the reasons for which the chain cannot go on. -/
theorem chainFrom_stretch (index : Index) (name : String) (visited : List String) (key : String)
    {place : Nat} (isKey : keyAt? index name place = some key)
    (earlier : ∀ other, visited.contains other ↔
      ∃ before < place, keyAt? index name before = some other) :
    Stretch index name place (chainFrom index visited key) := by
  have answers := script?_of_keyAt? isKey
  fun_induction chainFrom index visited key generalizing place with
  | case1 visited key isEmpty =>
    exact .nil ((ends_iff isKey).mpr (.inl (String.isEmpty_iff.mp isEmpty)))
  | case2 visited key hasText isNew unanswered =>
    exact .nil ((ends_iff isKey).mpr (.inr (.inl (answers.trans unanswered))))
  | case3 visited key hasText isNew script answered alone =>
    have goesOn := not_ends isKey earlier hasText isNew (answers.trans answered)
    have noKey : keyAt? index name (place + 1) = none := by
      rw [keyAt?_succ isKey (answers.trans answered), alone, Option.map_none]
    exact .cons isKey goesOn (answers.trans answered) (.nil (ends_of_keyAt?_eq_none noKey))
  | case4 visited key hasText isNew script answered parent extended inductionHypothesis =>
    have goesOn := not_ends isKey earlier hasText isNew (answers.trans answered)
    have nextKey : keyAt? index name (place + 1) = some (Script.key parent) := by
      rw [keyAt?_succ isKey (answers.trans answered), extended, Option.map_some]
    refine .cons isKey goesOn (answers.trans answered)
      (inductionHypothesis nextKey ?_ (script?_of_keyAt? nextKey))
    intro other
    rw [List.contains_cons, Bool.or_eq_true, earlier, beq_iff_eq]
    constructor
    · rintro (rfl | ⟨before, isBefore, same⟩)
      · exact ⟨place, Nat.lt_succ_self place, isKey⟩
      · exact ⟨before, Nat.lt_succ_of_lt isBefore, same⟩
    · rintro ⟨before, isBefore, same⟩
      rcases Nat.lt_succ_iff_lt_or_eq.mp isBefore with isEarlier | rfl
      · exact .inr ⟨before, isEarlier, same⟩
      · exact .inl (Option.some.inj (same.symm.trans isKey))
  | case5 visited key hasText known =>
    have isKnown : visited.contains key := by simpa using known
    exact .nil ((ends_iff isKey).mpr (.inr (.inr ((earlier key).mp isKnown))))

/-- The chain of a name is the stretch from the start of its sequence. -/
theorem chain_stretch (index : Index) (name : String) :
    Stretch index name 0 (chain index name) :=
  chainFrom_stretch index name [] (Script.key name) rfl fun other => by simp

/-- A script along a chain answers to the key at its place, where the chain goes on. -/
theorem answers_of_getElem? {index : Index} {name : String} {place : Nat} {script : Script}
    (met : (chain index name)[place]? = some script) :
    ¬ Ends index name place ∧
      ∃ key, keyAt? index name place = some key ∧ index.script? key = some script := by
  have found := (chain_stretch index name).answers place script met
  rwa [Nat.zero_add] at found

/-- No key comes up twice along a chain. -/
theorem keyAt?_ne {index : Index} {name : String} {first second : Nat} (before : first < second)
    (inside : second < (chain index name).length) :
    keyAt? index name first ≠ keyAt? index name second := by
  intro same
  obtain ⟨goesOn, key, isKey, _⟩ := answers_of_getElem? (List.getElem?_eq_getElem inside)
  exact goesOn ((ends_iff isKey).mpr (.inr (.inr ⟨first, before, same.trans isKey⟩)))

section Exact

variable {index : Index} (valid : index.Valid)

include valid

/-- A script that answers to a key has that key. -/
theorem key_name_of_scriptAt? {key : String} {script : Script}
    (answered : index.scriptAt? key = some script) : Script.key script.name = key := by
  rw [Index.scriptAt?_eq] at answered
  obtain ⟨path, last, found⟩ := Option.bind_eq_some_iff.mp answered
  obtain ⟨other, otherFound, same, _⟩ := valid.scriptAt?_of_getLast? last
  rw [found, Option.some.injEq] at otherFound
  exact otherFound ▸ same

/-- The scripts along a chain have the keys that were looked up for them. -/
theorem keyAt?_eq_of_getElem? {name : String} {place : Nat} {script : Script}
    (met : (chain index name)[place]? = some script) :
    keyAt? index name place = some (Script.key script.name) := by
  obtain ⟨_, key, isKey, answered⟩ := answers_of_getElem? met
  rw [script?_of_keyAt? isKey] at answered
  rw [isKey, key_name_of_scriptAt? valid answered]

/-- No two scripts along a chain have the same key. -/
theorem chain_keys_nodup (name : String) :
    ((chain index name).map fun script => Script.key script.name).Nodup := by
  rw [List.nodup_iff_pairwise_ne, List.pairwise_map, List.pairwise_iff_getElem]
  intro first second firstInside secondInside before same
  refine keyAt?_ne before secondInside ?_
  rw [keyAt?_eq_of_getElem? valid (List.getElem?_eq_getElem firstInside),
    keyAt?_eq_of_getElem? valid (List.getElem?_eq_getElem secondInside), same]

/-- A chain is no longer than there are script names. -/
theorem length_chain_le (name : String) : (chain index name).length ≤ index.scriptCount := by
  have declared : ((chain index name).map fun script => Script.key script.name) ⊆
      index.declarers.keys := by
    intro key member
    obtain ⟨script, met, rfl⟩ := List.mem_map.mp member
    obtain ⟨place, found⟩ := List.mem_iff_getElem?.mp met
    obtain ⟨_, key, isKey, answered⟩ := answers_of_getElem? found
    rw [script?_of_keyAt? isKey] at answered
    rw [key_name_of_scriptAt? valid answered]
    exact mem_keys_of_scriptAt? answered
  have bound := (chain_keys_nodup valid name).length_le_of_subset declared
  rwa [List.length_map, Table.keys, List.length_map] at bound

end Exact

/-- The chain of a name is exact, whatever the scripts extend.

It is as long as the first place at which the sequence of keys cannot go on, and holds the
scripts that answer to the keys before that place, in their order. These keys differ from one
another, so there are no more of them than script names. The names and the members along the
chain are those of its scripts, each script's functions, events and properties once. -/
theorem chain_is_exact (operations : List Index.Operation) (name : String) :
    let index := Index.empty.perform operations
    let scripts := chain index name
    IsLeast {place | Ends index name place} scripts.length ∧
    (∀ place < scripts.length, ∃ key script, keyAt? index name place = some key ∧
      index.script? key = some script ∧ Script.key script.name = key ∧
      scripts[place]? = some script) ∧
    (scripts.map fun script => Script.key script.name).Nodup ∧
    scripts.length ≤ index.scriptCount ∧
    ancestry index name = scripts.map (·.name) ∧
    members index name = (scripts.map fun script =>
      script.functions ++ script.events ++ script.properties).flatten := by
  intro index scripts
  have valid : index.Valid := Index.empty_valid.perform operations
  refine ⟨⟨?_, ?_⟩, ?_, chain_keys_nodup valid name, length_chain_le valid name, rfl, rfl⟩
  · have ends := (chain_stretch index name).ends
    rwa [Nat.zero_add] at ends
  · intro place ends
    by_contra shorter
    have inside : place < scripts.length := Nat.lt_of_not_le shorter
    exact (answers_of_getElem? (List.getElem?_eq_getElem inside)).1 ends
  · intro place inside
    have met : scripts[place]? = some scripts[place] := List.getElem?_eq_getElem inside
    obtain ⟨_, key, isKey, answered⟩ := answers_of_getElem? met
    have named := keyAt?_eq_of_getElem? valid met
    rw [isKey, Option.some.injEq] at named
    exact ⟨key, scripts[place], isKey, answered, named.symm, met⟩

end Papyrus.Inheritance
