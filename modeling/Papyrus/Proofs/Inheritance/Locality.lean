import Papyrus.Proofs.Index.Independence
import Papyrus.Proofs.Inheritance.Chain

/-!
# Which changes a chain can notice

A walk asks the index only for the keys on its way: the keys of the scripts that it meets, and
one more if it stops at a key that no script answers to. A change can give another answer only
to the keys of the scripts that it takes back and of the script that it declares. So a chain
stays as it is where these keys and those have nothing in common.

A key that changes hands is the key of a script that is taken back or declared, even if the file
that changes did not answer to it. A parent that was missing and comes to be declared was looked
up in vain, and that is why the key at which a walk stops has to count.
-/
namespace Papyrus

namespace Index

/-- A change concerns the keys of the scripts that it takes back, which are those of the paths that
it touches, and the key of the script that it declares. -/
inductive Operation.Concerns (index : Index) : Operation → String → Prop
  | withdrawn {operation : Operation} {path : Path} {script : Script}
      (touched : operation.touches path) (found : index.scripts.find? path = some script) :
      Concerns index operation (Script.key script.name)
  | declared {path : Path} {symbols : List Symbol} {script : Script} :
      Concerns index (.put path symbols (some script)) (Script.key script.name)

section Unconcerned

variable {index : Index} (valid : index.Valid) {operation : Operation} {key : String}
  (unconcerned : ¬ operation.Concerns index key)

include valid unconcerned

/-- A path that declares a key is not touched by a change that does not concern the key. -/
theorem Valid.touches_of_declaring {path : Path} (listed : path ∈ index.declaring key) :
    operation.touches path = false := by
  obtain ⟨script, found, rfl⟩ := (valid.declared key path).mp (List.elem_eq_true_of_mem listed)
  rw [Bool.eq_false_iff]
  exact fun touched => unconcerned (.withdrawn touched found)

/-- A change leaves the list of a key that it does not concern as it is. -/
theorem Valid.declaring_of_unconcerned : (operation.apply index).declaring key =
    index.declaring key := by
  have nobodyLeaves : (index.declaring key).filter (fun path => !operation.touches path) =
      index.declaring key := by
    refine List.filter_eq_self.mpr fun path listed => ?_
    rw [valid.touches_of_declaring unconcerned listed]
    rfl
  have nobodyJoins : operation.newcomers key = [] := by
    by_contra joins
    obtain ⟨path, symbols, script, rfl, rfl⟩ := Operation.exists_put_of_newcomers joins
    exact unconcerned .declared
  rw [valid.declaring_apply, nobodyLeaves, nobodyJoins, List.append_nil]

/-- A change leaves the answer to a key that it does not concern as it is. -/
theorem Valid.scriptAt?_of_unconcerned :
    (operation.apply index).scriptAt? key = index.scriptAt? key := by
  rw [scriptAt?_eq, scriptAt?_eq, valid.declaring_of_unconcerned unconcerned]
  cases last : (index.declaring key).getLast? with
  | none => rfl
  | some path =>
    have untouched := valid.touches_of_declaring unconcerned (List.mem_of_getLast? last)
    rw [Option.bind_some, Option.bind_some, valid.find?_apply_scripts operation 0, untouched]
    rfl

end Unconcerned

end Index

namespace Inheritance

/-- A walk stops at a key that no script answers to. -/
def Misses (index : Index) (name key : String) : Prop :=
  keyAt? index name (chain index name).length = some key ∧ key ≠ "" ∧ index.script? key = none

/-- A walk looks up the keys of the scripts that it meets, and the one that it misses. -/
def LooksUp (index : Index) (name key : String) : Prop :=
  (∃ script ∈ chain index name, Script.key script.name = key) ∨ Misses index name key

/-- Whatever a walk looks up is a key. -/
theorem key_of_looksUp {index : Index} {name key : String} (lookedUp : LooksUp index name key) :
    Script.key key = key := by
  rcases lookedUp with ⟨script, _, rfl⟩ | ⟨isKey, _⟩
  · exact Script.key_key script.name
  · exact key_of_keyAt? isKey

/-- Two stretches that start at the same place are the same: both end at the first place where the
chain cannot go on. -/
theorem Stretch.unique {index : Index} {name : String} {place : Nat} {first second : List Script}
    (isFirst : Stretch index name place first) (isSecond : Stretch index name place second) :
    first = second := by
  have noShorter {one other : List Script} (isOne : Stretch index name place one)
      (isOther : Stretch index name place other) : ¬ one.length < other.length := by
    intro shorter
    exact (isOther.answers one.length _ (List.getElem?_eq_getElem shorter)).1 isOne.ends
  have sameLength : first.length = second.length := Nat.le_antisymm
    (Nat.le_of_not_lt (noShorter isSecond isFirst)) (Nat.le_of_not_lt (noShorter isFirst isSecond))
  refine List.ext_getElem sameLength fun offset inFirst inSecond => ?_
  obtain ⟨_, key, isKey, answered⟩ :=
    isFirst.answers offset _ (List.getElem?_eq_getElem inFirst)
  obtain ⟨_, same, isSame, alsoAnswered⟩ :=
    isSecond.answers offset _ (List.getElem?_eq_getElem inSecond)
  obtain rfl := Option.some.inj (isKey.symm.trans isSame)
  exact Option.some.inj (answered.symm.trans alsoAnswered)

section Agreement

variable {index other : Index} (valid : index.Valid) {name : String}
  (agree : ∀ key, LooksUp index name key → other.script? key = index.script? key)

include valid

/-- The keys along a chain are looked up. -/
theorem looksUp_of_keyAt? {place : Nat} {key : String} (inside : place < (chain index name).length)
    (isKey : keyAt? index name place = some key) : LooksUp index name key := by
  have named := keyAt?_eq_of_getElem? valid (List.getElem?_eq_getElem inside)
  rw [isKey, Option.some.injEq] at named
  exact .inl ⟨_, List.getElem_mem inside, named.symm⟩

include agree

/-- An index that agrees on the keys looked up leads to the same keys, up to the place at which
the chain ends. -/
theorem keyAt?_of_agree {place : Nat} (upTo : place ≤ (chain index name).length) :
    keyAt? other name place = keyAt? index name place := by
  induction place with
  | zero => rfl
  | succ before inductionHypothesis =>
    obtain ⟨_, key, isKey, answered⟩ := answers_of_getElem? (List.getElem?_eq_getElem upTo)
    have alike := agree key (looksUp_of_keyAt? valid upTo isKey)
    have isOther := (inductionHypothesis (Nat.le_of_succ_le upTo)).trans isKey
    rw [keyAt?_succ isKey answered, keyAt?_succ isOther (alike.trans answered)]

/-- At a key to which both indexes answer alike, the chain goes on in both or in neither. -/
theorem ends_iff_of_agree {place : Nat} {key : String} (upTo : place ≤ (chain index name).length)
    (isKey : keyAt? index name place = some key)
    (alike : other.script? key = index.script? key) :
    Ends other name place ↔ Ends index name place := by
  have sameEarlier : (∃ earlier < place, keyAt? other name earlier = some key) ↔
      ∃ earlier < place, keyAt? index name earlier = some key := by
    refine exists_congr fun earlier => and_congr_right fun before => ?_
    rw [keyAt?_of_agree valid agree (Nat.le_of_lt (Nat.lt_of_lt_of_le before upTo))]
  rw [ends_iff isKey, ends_iff ((keyAt?_of_agree valid agree upTo).trans isKey), alike, sameEarlier]

/-- The chain ends in both indexes at the same place. -/
theorem ends_of_agree : Ends other name (chain index name).length := by
  have ends := (chain_stretch index name).ends
  rw [Nat.zero_add] at ends
  have sameKey := keyAt?_of_agree valid agree (Nat.le_refl (chain index name).length)
  cases isKey : keyAt? index name (chain index name).length with
  | none => exact ends_of_keyAt?_eq_none (sameKey.trans isKey)
  | some key =>
    have isOther := sameKey.trans isKey
    by_cases isEmpty : key = ""
    · exact (ends_iff isOther).mpr (.inl isEmpty)
    rcases (ends_iff isKey).mp ends with empty | unanswered | wasMet
    · exact absurd empty isEmpty
    · refine (ends_iff isOther).mpr (.inr (.inl ?_))
      exact (agree key (.inr ⟨isKey, isEmpty, unanswered⟩)).trans unanswered
    · obtain ⟨earlier, before, met⟩ := wasMet
      refine (ends_iff isOther).mpr (.inr (.inr ⟨earlier, before, ?_⟩))
      exact (keyAt?_of_agree valid agree (Nat.le_of_lt before)).trans met

/-- Indexes that agree on all keys that a walk looks up give the same chain. -/
theorem chain_of_agree : chain other name = chain index name := by
  refine (chain_stretch other name).unique ⟨?_, ?_⟩
  · rw [Nat.zero_add]
    exact ends_of_agree valid agree
  · intro offset script found
    have inside : offset < (chain index name).length := (List.getElem?_eq_some_iff.mp found).1
    obtain ⟨goesOn, key, isKey, answered⟩ := answers_of_getElem? found
    have alike := agree key (looksUp_of_keyAt? valid inside isKey)
    rw [Nat.zero_add, ends_iff_of_agree valid agree (Nat.le_of_lt inside) isKey alike]
    refine ⟨goesOn, key, ?_, alike.trans answered⟩
    rw [keyAt?_of_agree valid agree (Nat.le_of_lt inside), isKey]

end Agreement

/-- Resolution is local, in every index that was built by changes from the empty one.

A change that takes back no script with a key that the walk from a name looks up, and declares no
such script, leaves the ancestry and the members of the name as they are. It may store or remove a
file, or remove a whole directory. -/
theorem resolution_is_local (operations : List Index.Operation) (operation : Index.Operation)
    (name : String) :
    let index := Index.empty.perform operations
    let changed := operation.apply index
    (∀ key, LooksUp index name key → ¬ operation.Concerns index key) →
      ancestry changed name = ancestry index name ∧ members changed name = members index name := by
  intro index changed unconcerned
  have valid : index.Valid := Index.empty_valid.perform operations
  have same : chain changed name = chain index name := by
    refine chain_of_agree valid fun key lookedUp => ?_
    rw [Index.script?, Index.script?, key_of_looksUp lookedUp]
    exact valid.scriptAt?_of_unconcerned (unconcerned key lookedUp)
  rw [ancestry, ancestry, members, members, same]
  exact ⟨rfl, rfl⟩

/-- A door that extends a wall, which extends a gate that is missing, and two towers. -/
def castle : List Index.Operation :=
  let declared (file name : String) (parent : Option String) (member : String) : Index.Operation :=
    let own : Symbol := ⟨member, .function, "Function in " ++ name, ""⟩
    .put ⟨file⟩ [own] (some ⟨name, parent, [own], [], []⟩)
  [declared "old/Tower.psc" "Tower" (some "Door") "Ring",
    declared "new/Tower.psc" "TOWER" none "Watch",
    declared "new/Door.psc" "Door" (some "wall") "Open",
    declared "new/Wall.psc" "Wall" (some "Gate") "Fall"]

/-- The door's walk looks up the door, the wall and the gate. Removing a directory takes back a
tower only, and the door keeps its ancestry. A gate that comes to be declared is a different
matter. -/
theorem door_outlasts_the_old_tower :
    let index := Index.empty.perform castle
    let smaller := (index.removeUnder ⟨"old/"⟩).2
    (∀ key, LooksUp index "DOOR" key → ¬ (Index.Operation.removeUnder ⟨"old/"⟩).Concerns index key) ∧
      ancestry smaller "DOOR" = ancestry index "DOOR" ∧
      members smaller "DOOR" = members index "DOOR" ∧
      ancestry index "DOOR" = ["Door", "Wall"] ∧ (index.removeUnder ⟨"old/"⟩).1 = 1 ∧
      LooksUp index "DOOR" "gate" ∧
      ancestry (index.put ⟨"Gate.psc"⟩ [] (some ⟨"GATE", none, [], [], []⟩)) "DOOR" =
        ["Door", "Wall", "GATE"] := by
  intro index smaller
  have keys : (chain index "DOOR").map (fun script => Script.key script.name) =
      ["door", "wall"] := by decide +kernel
  have missing : keyAt? index "DOOR" 2 = some "gate" := by decide +kernel
  have length : (chain index "DOOR").length = 2 := by simpa using congrArg List.length keys
  have towersOnly : ∀ entry ∈ index.scripts.entries, entry.1.startsWith ⟨"old/"⟩ →
      Script.key entry.2.name = "tower" := by decide +kernel
  have misses : Misses index "DOOR" "gate" := by
    rw [Misses, length]
    exact ⟨missing, by decide, by decide +kernel⟩
  have apart (key : String) (lookedUp : LooksUp index "DOOR" key) :
      ¬ (Index.Operation.removeUnder ⟨"old/"⟩).Concerns index key := by
    rintro ⟨touched, found⟩
    obtain ⟨entry, present, rfl⟩ := Option.map_eq_some_iff.mp found
    have same := List.find?_some present
    have isTower := towersOnly entry (List.mem_of_find?_eq_some present)
      ((Path.startsWith_congr same ⟨"old/"⟩).trans touched)
    rcases lookedUp with ⟨script, met, isKey⟩ | ⟨isKey, _⟩
    · have listed : Script.key script.name ∈ ["door", "wall"] := keys ▸ List.mem_map_of_mem met
      rw [isKey, isTower] at listed
      exact absurd listed (by decide)
    · rw [length, missing, isTower, Option.some.injEq] at isKey
      exact absurd isKey (by decide)
  obtain ⟨sameAncestry, sameMembers⟩ :=
    resolution_is_local castle (.removeUnder ⟨"old/"⟩) "DOOR" apart
  exact ⟨apart, sameAncestry, sameMembers, by decide +kernel, by decide +kernel, .inr misses,
    by decide +kernel⟩

end Inheritance
end Papyrus
