import Papyrus.Proofs.Index.History

/-!
# Changes that do not depend on each other

A change is known by the paths it touches and by the file it adds to the list of a key. Two
changes that touch no path in common, and add to no list in common, can be made in either
order. A change that touches every path of an earlier one leaves no trace of it.

Each change first takes back what the path declared before, under a key that may be any. So
changes of different paths still meet in one list, where one of them leaves and the other comes
in, and a list may vanish and come back in between. What is left of the list is told by the paths
alone, and for this reason none of it matters: only the order of two newcomers does.

Indexes are compared as maps. The order of the entries is not compared, nor is the spelling of
the paths that are keys. The lists of declaring files are the same, order and spelling included.
-/
namespace Papyrus.Index

/-- Two indexes find the same under every path and under every key. -/
structure Alike (left right : Index) : Prop where
  files : ∀ path, left.files.find? path = right.files.find? path
  scripts : ∀ path, left.scripts.find? path = right.scripts.find? path
  declarers : ∀ key, left.declarers.find? key = right.declarers.find? key

/-- No path is touched by both changes, and no list gets a newcomer from both. -/
structure Operation.Independent (first second : Operation) : Prop where
  apart : ∀ path, first.touches path → second.touches path = false
  unshared : ∀ key, first.newcomers key = [] ∨ second.newcomers key = []

/-- A newcomer is touched by the change that brings it. -/
theorem Operation.touches_of_mem_newcomers {operation : Operation} {key : String} {path : Path}
    (isNew : path ∈ operation.newcomers key) : operation.touches path := by
  cases operation with
  | put other symbols script =>
    simp only [newcomers] at isNew
    split at isNew
    · obtain rfl := List.mem_singleton.mp isNew
      exact BEq.rfl
    · exact absurd isNew List.not_mem_nil
  | remove other => exact absurd isNew List.not_mem_nil
  | removeUnder above => exact absurd isNew List.not_mem_nil

/-- Only storing a script adds a file to the list of its key. -/
theorem Operation.exists_put_of_newcomers {operation : Operation} {key : String}
    (joins : operation.newcomers key ≠ []) : ∃ path symbols script,
      operation = .put path symbols (some script) ∧ Script.key script.name = key := by
  cases operation with
  | put path symbols script =>
    cases script with
    | none => exact absurd rfl joins
    | some script =>
      refine ⟨path, symbols, script, rfl, ?_⟩
      by_contra differs
      exact joins (by simp [newcomers, differs])
  | remove path => exact absurd rfl joins
  | removeUnder above => exact absurd rfl joins

section Different

variable {one other : Path} (differ : (one == other) = false)

include differ

/-- A path that is equal to one of two different ones is not equal to the other. -/
theorem beq_eq_false_of_differ (path : Path) (isOne : one == path) : (other == path) = false := by
  rw [BEq.congr_right (BEq.symm isOne), BEq.comm]
  exact differ

/-- Storing two different files is independent, unless both declare a script under one key. -/
theorem Operation.independent_put_put {script rival : Option Script}
    (uncontested : ¬ ∃ declared ∈ script, ∃ contending ∈ rival,
      Script.key declared.name = Script.key contending.name)
    (oneSymbols otherSymbols : List Symbol) :
    (put one oneSymbols script).Independent (put other otherSymbols rival) where
  apart := beq_eq_false_of_differ differ
  unshared key := by
    by_contra both
    obtain ⟨oneJoins, otherJoins⟩ := not_or.mp both
    obtain ⟨_, _, declared, isOne, oneKey⟩ := exists_put_of_newcomers oneJoins
    obtain ⟨_, _, contending, isOther, otherKey⟩ := exists_put_of_newcomers otherJoins
    cases isOne
    cases isOther
    exact uncontested ⟨declared, rfl, contending, rfl, oneKey.trans otherKey.symm⟩

/-- Storing one file and removing a different one is independent. -/
theorem Operation.independent_put_remove (symbols : List Symbol) (script : Option Script) :
    (put one symbols script).Independent (remove other) where
  apart := beq_eq_false_of_differ differ
  unshared _ := .inr rfl

end Different

section Lists

/-- Alike indexes have the same declaring files, in the same order. -/
theorem Alike.declaring_eq {left right : Index} (alike : Alike left right) (key : String) :
    left.declaring key = right.declaring key := by
  rw [declaring, declaring, alike.declarers]

/-- A key is stored with its declaring files, if there are any. -/
theorem Valid.find?_declarers {index : Index} (valid : index.Valid) (key : String) :
    index.declarers.find? key =
      if index.declaring key = [] then none else some (index.declaring key) := by
  have occupied := valid.occupied key
  unfold declaring
  cases found : index.declarers.find? key with
  | none => rfl
  | some paths =>
    rw [found] at occupied
    have nonempty : paths ≠ [] := fun isEmpty => occupied (congrArg some isEmpty)
    rw [Option.getD_some, if_neg nonempty]

/-- Indexes that give the same symbols, scripts and declaring files are alike. -/
theorem Valid.alike {left right : Index} (leftValid : left.Valid) (rightValid : right.Valid)
    (symbols : ∀ path, left.symbols? path = right.symbols? path)
    (scripts : ∀ path, left.scripts.find? path = right.scripts.find? path)
    (declaring : ∀ key, left.declaring key = right.declaring key) : Alike left right where
  files := symbols
  scripts := scripts
  declarers key := by
    rw [leftValid.find?_declarers, rightValid.find?_declarers, declaring]

end Lists

section Pairs

variable {index : Index} (valid : index.Valid) (first second : Operation)

include valid

/-- Independent changes lead to the same index in either order. -/
theorem Valid.apply_comm (independent : first.Independent second) :
    Alike (second.apply (first.apply index)) (first.apply (second.apply index)) := by
  have exclusive (path : Path) : first.touches path = false ∨ second.touches path = false := by
    cases touched : first.touches path with
    | false => exact .inl rfl
    | true => exact .inr (independent.apart path touched)
  refine ((valid.apply first).apply second).alike ((valid.apply second).apply first) ?_ ?_ ?_
  · intro path
    rw [symbols?_apply _ second 0, symbols?_apply _ first 0, symbols?_apply _ first 0,
      symbols?_apply _ second 0]
    rcases exclusive path with untouched | untouched <;> simp [untouched]
  · intro path
    rw [(valid.apply first).find?_apply_scripts second 0, valid.find?_apply_scripts first 0,
      (valid.apply second).find?_apply_scripts first 0, valid.find?_apply_scripts second 0]
    rcases exclusive path with untouched | untouched <;> simp [untouched]
  · intro key
    -- The newcomer of one change is not touched by the other, so it is not struck.
    have firstStays : (first.newcomers key).filter (fun path => !second.touches path) =
        first.newcomers key := by
      refine List.filter_eq_self.mpr fun path isNew => ?_
      rw [independent.apart path (Operation.touches_of_mem_newcomers isNew)]
      rfl
    have secondStays : (second.newcomers key).filter (fun path => !first.touches path) =
        second.newcomers key := by
      refine List.filter_eq_self.mpr fun path isNew => ?_
      have touched := Operation.touches_of_mem_newcomers isNew
      rcases exclusive path with untouched | untouched
      · rw [untouched]
        rfl
      · exact absurd touched (by simp [untouched])
    rw [(valid.apply first).declaring_apply, valid.declaring_apply,
      (valid.apply second).declaring_apply, valid.declaring_apply, List.filter_append,
      List.filter_append, firstStays, secondStays, List.filter_filter, List.filter_filter,
      List.append_assoc, List.append_assoc]
    congr 1
    · simp only [Bool.and_comm]
    · rcases independent.unshared key with nobody | nobody <;> simp [nobody]

/-- Of two changes the second alone counts, if it touches every path that the first one
touches. -/
theorem Valid.apply_absorb (covered : ∀ path, first.touches path → second.touches path) :
    Alike (second.apply (first.apply index)) (second.apply index) := by
  refine ((valid.apply first).apply second).alike (valid.apply second) ?_ ?_ ?_
  · intro path
    rw [symbols?_apply _ second 0, symbols?_apply _ first 0, symbols?_apply _ second 0]
    split
    next => rfl
    next untouched => rw [if_neg fun touched => untouched (covered path touched)]
  · intro path
    rw [(valid.apply first).find?_apply_scripts second 0, valid.find?_apply_scripts first 0,
      valid.find?_apply_scripts second 0]
    split
    next => rfl
    next untouched => rw [if_neg fun touched => untouched (covered path touched)]
  · intro key
    have struck : (first.newcomers key).filter (fun path => !second.touches path) = [] := by
      refine List.filter_eq_nil_iff.mpr fun path isNew => ?_
      simp [covered path (Operation.touches_of_mem_newcomers isNew)]
    rw [(valid.apply first).declaring_apply, valid.declaring_apply, valid.declaring_apply,
      List.filter_append, struck, List.append_nil, List.filter_filter]
    congr 1
    refine List.filter_congr fun path _ => ?_
    cases touched : first.touches path with
    | false => simp
    | true => simp [covered path touched]

/-- Two files that come to declare one key stand in its list in the order of the changes. -/
theorem Valid.not_alike_of_shared_key {one other : Path} (differ : (one == other) = false)
    {script rival : Script} (shared : Script.key script.name = Script.key rival.name)
    (oneSymbols otherSymbols : List Symbol) :
    ¬ Alike ((index.put one oneSymbols (some script)).put other otherSymbols (some rival))
      ((index.put other otherSymbols (some rival)).put one oneSymbols (some script)) := by
  intro alike
  have same := alike.declaring_eq (Script.key script.name)
  rw [(valid.put one oneSymbols (some script)).declaring_put,
    (valid.put other otherSymbols (some rival)).declaring_put] at same
  simp only [Option.any_some, shared, beq_self_eq_true, if_true] at same
  have sameLast := congrArg List.getLast? same
  rw [List.getLast?_concat, List.getLast?_concat, Option.some.injEq] at sameLast
  rw [sameLast, BEq.rfl] at differ
  exact Bool.noConfusion differ

end Pairs

/-- Storing and removing files in an index that was built by changes from the empty one.

Two different files can be stored in either order, but not if both declare a script and the two
names have the same key. A file can be stored before or after another one is removed, and the
removal reports the same. Storing a file that was just stored, or removing it, leaves no trace of
the first time, in whatever spelling the path is given. -/
theorem updates_commute_and_absorb (operations : List Operation) :
    let index := empty.perform operations
    (∀ (one other : Path) (oneSymbols otherSymbols : List Symbol) (script rival : Option Script),
      (one == other) = false →
        (Alike ((index.put one oneSymbols script).put other otherSymbols rival)
            ((index.put other otherSymbols rival).put one oneSymbols script) ↔
          ¬ ∃ declared ∈ script, ∃ contending ∈ rival,
            Script.key declared.name = Script.key contending.name)) ∧
    (∀ (one other : Path) (symbols : List Symbol) (script : Option Script),
      (one == other) = false →
        Alike ((index.put one symbols script).remove other).2
            ((index.remove other).2.put one symbols script) ∧
          ((index.put one symbols script).remove other).1 = (index.remove other).1) ∧
    (∀ (path again : Path) (symbols latest : List Symbol) (script last : Option Script),
      path == again →
        Alike ((index.put path symbols script).put again latest last)
          (index.put again latest last)) ∧
    ∀ (path again : Path) (symbols : List Symbol) (script : Option Script), path == again →
      Alike ((index.put path symbols script).remove again).2 (index.remove again).2 := by
  intro index
  have valid : index.Valid := empty_valid.perform operations
  refine ⟨?_, ?_, ?_, ?_⟩
  · intro one other oneSymbols otherSymbols script rival differ
    constructor
    · rintro alike ⟨declared, rfl, contending, rfl, shared⟩
      exact valid.not_alike_of_shared_key differ shared oneSymbols otherSymbols alike
    · intro uncontested
      exact valid.apply_comm _ _
        (Operation.independent_put_put differ uncontested oneSymbols otherSymbols)
  · intro one other symbols script differ
    refine ⟨valid.apply_comm _ _ (Operation.independent_put_remove differ symbols script), ?_⟩
    have unchanged := symbols?_put index one symbols script other
    rw [differ] at unchanged
    simp only [remove, Table.contains_eq_isSome]
    exact congrArg Option.isSome unchanged
  · intro path again symbols latest script last same
    exact valid.apply_absorb (.put path symbols script) (.put again latest last)
      fun other isPath => BEq.trans (BEq.symm same) isPath
  · intro path again symbols script same
    exact valid.apply_absorb (.put path symbols script) (.remove again)
      fun other isPath => BEq.trans (BEq.symm same) isPath

/-- Two files that declare a gate, and one that declares a door. -/
def neighbours : List Operation :=
  [.put ⟨"old/Gate.psc"⟩ [] (some ⟨"Gate", none, [], [], []⟩),
    .put ⟨"new/Gate.psc"⟩ [] (some ⟨"GATE", none, [], [], []⟩),
    .put ⟨"old/Door.psc"⟩ [] (some ⟨"Door", none, [], [], []⟩)]

/-- The first gate becomes a door while the only door becomes a gate: each of them enters the list
that the other one leaves, and the list of the door is empty in between in one of the two orders.
If both become a wall, the order counts. The door may also be removed, and the gate may be stored
twice in two spellings. -/
theorem neighbours_change_names_in_either_order :
    let index := empty.perform neighbours
    let named (name : String) : Option Script := some ⟨name, none, [], [], []⟩
    let gate : Path := ⟨"old/Gate.psc"⟩
    let door : Path := ⟨"old/Door.psc"⟩
    (gate == door) = false ∧ (gate == ⟨"old//Gate.psc"⟩) = true ∧
      Alike ((index.put gate [] (named "Door")).put door [] (named "Gate"))
        ((index.put door [] (named "Gate")).put gate [] (named "Door")) ∧
      ¬ Alike ((index.put gate [] (named "Wall")).put door [] (named "wall"))
        ((index.put door [] (named "wall")).put gate [] (named "Wall")) ∧
      Alike ((index.put gate [] (named "Door")).remove door).2
        ((index.remove door).2.put gate [] (named "Door")) ∧
      Alike ((index.put gate [] (named "Door")).put ⟨"old//Gate.psc"⟩ [] (named "Gate"))
        (index.put ⟨"old//Gate.psc"⟩ [] (named "Gate")) ∧
      Alike ((index.put gate [] (named "Door")).remove ⟨"old//Gate.psc"⟩).2
        (index.remove ⟨"old//Gate.psc"⟩).2 := by
  intro index named gate door
  have differ : (gate == door) = false := by decide +kernel
  have same : gate == ⟨"old//Gate.psc"⟩ := by decide +kernel
  obtain ⟨stored, removed, again, gone⟩ := updates_commute_and_absorb neighbours
  refine ⟨differ, same, ?_, ?_, (removed gate door [] (named "Door") differ).1,
    again gate _ [] [] (named "Door") (named "Gate") same, gone gate _ [] (named "Door") same⟩
  · refine (stored gate door [] [] (named "Door") (named "Gate") differ).mpr ?_
    rintro ⟨declared, isDoor, contending, isGate, shared⟩
    rw [← Option.some.inj isDoor, ← Option.some.inj isGate] at shared
    exact absurd shared (by decide)
  · intro alike
    refine (stored gate door [] [] (named "Wall") (named "wall") differ).mp alike ?_
    exact ⟨_, rfl, _, rfl, by decide⟩

end Papyrus.Index
