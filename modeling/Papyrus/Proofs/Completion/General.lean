import Mathlib.Data.List.Induction
import Mathlib.Data.List.Nodup
import Papyrus.Completion.Query

/-!
# What a general request offers

The answer to a general request has two parts: what the edited script inherits, and the
symbols of all files whose names are not among the inherited ones. Each part is deduplicated
by one pass that skips the names it has seen, and the second pass starts with the names of the
first part.

All laws come from one: for every name, the symbols of that name in the answer are at most
one, the first inherited member of that name if there is one, and otherwise the first symbol
of that name in the first file that has one. The order in which files are listed has a say in
this only where files disagree.
-/
namespace Papyrus.Completion

/-- The symbols of a list whose name does not stand before them. -/
def firstOccurrences (symbols : List Symbol) : List Symbol :=
  (symbols.zipIdx.filter fun entry =>
    (symbols.take entry.2).all fun earlier => earlier.name ≠ entry.1.name).map (·.1)

/-- The members along the chain of a parent, if there is one. -/
def parentMembers (index : Index) (parent : Option String) : List Symbol :=
  parent.elim [] (Inheritance.members index)

/-- The files that have a symbol of a name agree on the first one. -/
def Agreed (files : List (Path × List Symbol)) (name : String) : Prop :=
  ∀ file ∈ files, ∀ rival ∈ files, ∀ symbol other, file.2.find? (·.name = name) = some symbol →
    rival.2.find? (·.name = name) = some other → symbol = other

section Pass

/-- A symbol whose name was seen is skipped. -/
theorem firstOfName_cons_seen {seen : List String} {symbol : Symbol} (known : symbol.name ∈ seen)
    (rest : List Symbol) : firstOfName seen (symbol :: rest) = firstOfName seen rest := by
  simp [firstOfName, known]

/-- A symbol whose name was not seen is taken, and its name is seen from then on. -/
theorem firstOfName_cons_new {seen : List String} {symbol : Symbol} (isNew : symbol.name ∉ seen)
    (rest : List Symbol) : firstOfName seen (symbol :: rest) =
      symbol :: firstOfName (symbol.name :: seen) rest := by
  simp [firstOfName, isNew]

/-- A symbol at the end of a list is taken if neither the names seen nor the symbols before it
have its name. -/
theorem firstOfName_concat (seen : List String) (symbols : List Symbol) (last : Symbol) :
    firstOfName seen (symbols ++ [last]) = firstOfName seen symbols ++
      if last.name ∈ seen ∨ ∃ earlier ∈ symbols, earlier.name = last.name then [] else [last] := by
  induction symbols generalizing seen with
  | nil => simp [firstOfName]
  | cons symbol rest inductionHypothesis =>
    by_cases known : symbol.name ∈ seen
    · rw [List.cons_append, firstOfName_cons_seen known, firstOfName_cons_seen known,
        inductionHypothesis]
      by_cases same : symbol.name = last.name
      · simp [← same, known]
      · simp [same]
    · rw [List.cons_append, firstOfName_cons_new known, firstOfName_cons_new known,
        inductionHypothesis, List.cons_append]
      by_cases same : symbol.name = last.name
      · simp [same]
      · simp [same, Ne.symm same]

/-- A symbol at the end of a list is a first occurrence if no symbol before it has its name. -/
theorem firstOccurrences_concat (symbols : List Symbol) (last : Symbol) :
    firstOccurrences (symbols ++ [last]) = firstOccurrences symbols ++
      if ∃ earlier ∈ symbols, earlier.name = last.name then [] else [last] := by
  have before : ∀ entry ∈ symbols.zipIdx,
      (symbols ++ [last]).take entry.2 = symbols.take entry.2 := by
    intro entry member
    have inside : entry.2 < symbols.length := (List.mem_zipIdx' member).1
    exact List.take_append_of_le_length (Nat.le_of_lt inside)
  rw [firstOccurrences, List.zipIdx_append, List.filter_append, List.map_append]
  congr 1
  · rw [firstOccurrences]
    congr 1
    refine List.filter_congr fun entry member => ?_
    rw [before entry member]
  · rw [Nat.zero_add, List.zipIdx_singleton, List.filter_singleton, List.take_left]
    split
    next found =>
      obtain ⟨earlier, member, same⟩ := found
      have repeated : (symbols.all fun earlier => earlier.name ≠ last.name) = false :=
        List.all_eq_false.mpr ⟨earlier, member, by simp [same]⟩
      rw [repeated]
      rfl
    next isNew =>
      have first : (symbols.all fun earlier => earlier.name ≠ last.name) = true :=
        List.all_eq_true.mpr fun earlier member =>
          decide_eq_true fun same => isNew ⟨earlier, member, same⟩
      rw [first]
      rfl

/-- One pass takes the first occurrences that were not seen. -/
theorem firstOfName_eq_filter (seen : List String) (symbols : List Symbol) :
    firstOfName seen symbols =
      (firstOccurrences symbols).filter fun symbol => symbol.name ∉ seen := by
  induction symbols using List.reverseRecOn with
  | nil => rfl
  | append_singleton symbols last inductionHypothesis =>
    rw [firstOfName_concat, firstOccurrences_concat, List.filter_append, inductionHypothesis]
    congr 1
    by_cases known : last.name ∈ seen
    · by_cases found : ∃ earlier ∈ symbols, earlier.name = last.name <;> simp [known, found]
    · by_cases found : ∃ earlier ∈ symbols, earlier.name = last.name <;> simp [known, found]

/-- Of each name that was not seen, one pass takes the first symbol and no other. -/
theorem filter_firstOfName (seen : List String) (symbols : List Symbol) (name : String) :
    (firstOfName seen symbols).filter (·.name = name) =
      if name ∈ seen then [] else (symbols.find? (·.name = name)).toList := by
  induction symbols generalizing seen with
  | nil => simp [firstOfName]
  | cons symbol rest inductionHypothesis =>
    by_cases known : symbol.name ∈ seen
    · rw [firstOfName_cons_seen known, inductionHypothesis]
      by_cases named : symbol.name = name
      · rw [if_pos (named ▸ known), if_pos (named ▸ known)]
      · simp [named]
    · rw [firstOfName_cons_new known]
      by_cases named : symbol.name = name
      · subst named
        simp only [List.filter_cons, inductionHypothesis, List.mem_cons_self, known, decide_true,
          if_true, if_false, List.find?_cons, Option.toList_some]
      · simp [named, Ne.symm named, inductionHypothesis]

end Pass

section Answer

/-- A name occurs exactly when a symbol of that name is found. -/
theorem mem_names_iff (symbols : List Symbol) (name : String) :
    name ∈ symbols.map (·.name) ↔ (symbols.find? (·.name = name)).isSome := by
  simp

variable (index : Index) (parent : Option String)

/-- What a script inherits are the first occurrences among the members of its parent, marked as
inherited. -/
theorem inherited_eq_map :
    inherited index parent = (firstOccurrences (parentMembers index parent)).map asInherited := by
  cases parent with
  | none => rfl
  | some name =>
    rw [inherited, firstOfName_eq_filter]
    simp [parentMembers]

/-- Of each name, a script inherits the first member along the chain of its parent. -/
theorem filter_inherited (name : String) :
    (inherited index parent).filter (·.name = name) =
      (((parentMembers index parent).find? (·.name = name)).map asInherited).toList := by
  have unseen : firstOccurrences (parentMembers index parent) =
      firstOfName [] (parentMembers index parent) := by
    simp [firstOfName_eq_filter]
  have sameName : (fun symbol : Symbol => decide (symbol.name = name)) ∘ asInherited =
      fun symbol => decide (symbol.name = name) := rfl
  rw [inherited_eq_map, List.filter_map, sameName, unseen, filter_firstOfName,
    if_neg List.not_mem_nil]
  cases (parentMembers index parent).find? (·.name = name) <;> rfl

/-- A name is inherited exactly when a member along the chain of the parent has it. -/
theorem mem_inherited_names_iff (name : String) :
    name ∈ (inherited index parent).map (·.name) ↔
      ((parentMembers index parent).find? (·.name = name)).isSome := by
  rw [mem_names_iff, ← List.head?_filter, filter_inherited]
  cases (parentMembers index parent).find? (·.name = name) <;> rfl

/-- Of each name, the answer has the first inherited member or else the first symbol in the
first file that has one, and no other symbol. -/
theorem filter_general (files : List (List Symbol)) (name : String) :
    (queryOver index files (.general parent)).filter (·.name = name) =
      ((((parentMembers index parent).find? (·.name = name)).map asInherited).or
        (files.findSome? (·.find? (·.name = name)))).toList := by
  rw [queryOver, List.filter_append, filter_inherited, elsewhere, filter_firstOfName,
    List.find?_flatten]
  simp only [mem_inherited_names_iff]
  cases (parentMembers index parent).find? (·.name = name) <;> simp

/-- The symbol of a name in the answer is the first inherited member of that name, or else the
first symbol of that name in the first file that has one. -/
theorem find?_general (files : List (Path × List Symbol)) (name : String) :
    (queryOver index (files.map (·.2)) (.general parent)).find? (·.name = name) =
      (((parentMembers index parent).find? (·.name = name)).map asInherited).or
        (files.findSome? fun file => file.2.find? (·.name = name)) := by
  rw [← List.head?_filter, filter_general, List.findSome?_map]
  exact Option.head?_toList

/-- No two symbols of the answer have the same name. -/
theorem general_names_nodup (files : List (List Symbol)) :
    ((queryOver index files (.general parent)).map (·.name)).Nodup := by
  rw [List.nodup_iff_count_le_one]
  intro name
  have counted : ((queryOver index files (.general parent)).map (·.name)).count name =
      ((queryOver index files (.general parent)).filter (·.name = name)).length := by
    rw [List.count_eq_countP, List.countP_map, List.countP_eq_length_filter]
    rfl
  rw [counted, filter_general]
  exact Option.length_toList_le

end Answer

section Order

variable {files other : List (Path × List Symbol)} (sameFiles : other.Perm files) (name : String)

include sameFiles

/-- Whether some file has a symbol of a name does not depend on the order of files. -/
theorem isSome_firstSymbol_of_perm :
    (other.findSome? fun file => file.2.find? (·.name = name)).isSome =
      (files.findSome? fun file => file.2.find? (·.name = name)).isSome := by
  rw [Bool.eq_iff_iff, List.isSome_findSome?, List.isSome_findSome?, List.any_eq_true,
    List.any_eq_true]
  exact exists_congr fun file => and_congr_left' sameFiles.mem_iff

/-- Which symbol of a name comes first does not depend on the order of files where they agree
on it. -/
theorem firstSymbol_of_perm (agreed : Agreed files name) :
    (other.findSome? fun file => file.2.find? (·.name = name)) =
      files.findSome? fun file => file.2.find? (·.name = name) := by
  have alike := isSome_firstSymbol_of_perm sameFiles name
  cases first : files.findSome? fun file => file.2.find? (·.name = name) with
  | none =>
    rw [first] at alike
    exact Option.not_isSome_iff_eq_none.mp (by simp [alike])
  | some symbol =>
    rw [first, Option.isSome_some, Option.isSome_iff_exists] at alike
    obtain ⟨rival, otherFirst⟩ := alike
    obtain ⟨file, member, found⟩ := List.exists_of_findSome?_eq_some first
    obtain ⟨rivalFile, rivalMember, rivalFound⟩ := List.exists_of_findSome?_eq_some otherFirst
    rw [otherFirst, agreed file member rivalFile (sameFiles.mem_iff.mp rivalMember) symbol rival
      found rivalFound]

end Order

/-- The answer to a general request is exact for every order in which the files are listed.

It is made of two parts. The first holds the first occurrence of each name among the members
along the parent's chain, so that the first script on the chain that has a member of a name
supplies it, marked as inherited. The second holds, for each other name that some file has,
the first symbol of that name in the first file that has one, and nothing else. No name comes
up twice.

In another order of the files the first part and the names are the same, and so is the symbol
of every name on which the files agree. -/
theorem general_answer_is_exact (index : Index) (parent : Option String)
    {files : List (Path × List Symbol)} (listed : files.Perm index.files.entries) :
    let chain := parent.elim [] (Inheritance.chain index)
    let answer := queryOver index (files.map (·.2)) (.general parent)
    let first := (firstOccurrences (parent.elim [] (Inheritance.members index))).map
      fun member => { member with detail := member.detail ++ " (inherited)" }
    let rest := (firstOccurrences (files.flatMap (·.2))).filter
      fun symbol => symbol.name ∉ first.map (·.name)
    answer = first ++ rest ∧ (answer.map (·.name)).Nodup ∧
    (∀ name, first.filter (·.name = name) =
      ((chain.findSome? fun script => script.members.find? (·.name = name)).map fun member =>
        { member with detail := member.detail ++ " (inherited)" }).toList) ∧
    (∀ name, rest.filter (·.name = name) = if name ∈ first.map (·.name) then [] else
      (files.findSome? fun file => file.2.find? (·.name = name)).toList) ∧
    ∀ others : List (Path × List Symbol), others.Perm index.files.entries →
      let another := queryOver index (others.map (·.2)) (.general parent)
      first <+: another ∧
      (∀ name, name ∈ another.map (·.name) ↔ name ∈ answer.map (·.name)) ∧
      ∀ name, Agreed index.files.entries name →
        another.find? (·.name = name) = answer.find? (·.name = name) := by
  intro chain answer first rest
  have isFirst : inherited index parent = first := inherited_eq_map index parent
  have isRest : elsewhere (first.map (·.name)) (files.map (·.2)) = rest := by
    rw [elsewhere, firstOfName_eq_filter, ← List.flatMap_def]
  have supplied (name : String) : (parentMembers index parent).find? (·.name = name) =
      chain.findSome? fun script => script.members.find? (·.name = name) := by
    cases parent with
    | none => rfl
    | some name => exact List.find?_flatMap
  refine ⟨?_, general_names_nodup index parent _, ?_, ?_, ?_⟩
  · rw [← isRest, ← isFirst]
    rfl
  · intro name
    rw [← isFirst, filter_inherited, supplied]
    rfl
  · intro name
    rw [← isRest, elsewhere, filter_firstOfName, List.find?_flatten, List.findSome?_map]
    rfl
  · intro others othersListed another
    have sameFiles : others.Perm files := othersListed.trans listed.symm
    refine ⟨?_, ?_, ?_⟩
    · rw [← isFirst]
      exact List.prefix_append _ _
    · intro name
      rw [mem_names_iff, mem_names_iff, find?_general, find?_general, Option.isSome_or,
        Option.isSome_or, isSome_firstSymbol_of_perm sameFiles]
    · intro name agreed
      have agreedOnFiles : Agreed files name := by
        intro file member rival rivalMember
        exact agreed file (listed.mem_iff.mp member) rival (listed.mem_iff.mp rivalMember)
      rw [find?_general, find?_general, firstSymbol_of_perm sameFiles name agreedOnFiles]

section Rivals

/-- Two files that have the same `Wait` and different ones of `Run`. The first declares a script
with a `Tick`, which the second has for itself. -/
def rivals : Index :=
  let tick : Symbol := ⟨"Tick", .function, "Function in A", ""⟩
  let wait : Symbol := ⟨"Wait", .event, "Event in A", ""⟩
  (Index.empty.put ⟨"A.psc"⟩ [tick, wait, ⟨"Run", .function, "Function in A", ""⟩]
    (some ⟨"A", none, [tick], [], []⟩)).put ⟨"B.psc"⟩
      [⟨"Run", .function, "Function in B", ""⟩, ⟨"Tick", .function, "Function in B", ""⟩, wait] none

/-- Both orders of the two files give the same `Wait`, and each gives every name once. -/
theorem general_answer_in_two_orders :
    let files := rivals.files.entries
    let answer := queryOver rivals (files.map (·.2)) (.general (some "A"))
    let another := queryOver rivals (files.reverse.map (·.2)) (.general (some "A"))
    files.Perm rivals.files.entries ∧ files.reverse.Perm rivals.files.entries ∧
      Agreed files "Wait" ∧ (answer.map (·.name)).Nodup ∧
      another.find? (·.name = "Wait") = answer.find? (·.name = "Wait") := by
  intro files answer another
  have shared : ∀ file ∈ rivals.files.entries, file.2.find? (·.name = "Wait") =
      some ⟨"Wait", .event, "Event in A", ""⟩ := by
    decide
  have agreed : Agreed files "Wait" := by
    intro file member rival rivalMember symbol other found otherFound
    rw [shared file member] at found
    rw [shared rival rivalMember] at otherFound
    exact Option.some.inj (found.symm.trans otherFound)
  obtain ⟨_, distinct, _, _, inOrder⟩ :=
    general_answer_is_exact rivals (some "A") (List.Perm.refl rivals.files.entries)
  obtain ⟨_, _, same⟩ := inOrder files.reverse (List.reverse_perm files)
  exact ⟨List.Perm.refl _, List.reverse_perm files, agreed, distinct, same "Wait" agreed⟩

end Rivals

end Papyrus.Completion
