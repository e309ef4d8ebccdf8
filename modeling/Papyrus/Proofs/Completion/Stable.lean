import Mathlib.Data.List.Sort
import Mathlib.Data.String.Basic
import Papyrus.Completion.Stable
import Papyrus.Proofs.Completion.General

/-!
# What all orders of files have in common

The stable part of an answer is found with the files in one order, and nothing in it comes from
that order. The names that are listed besides the inherited ones are the same in every order and
are sorted. What is offered for a name depends on its candidates, which are a set.

It also says no less than it could. An agreed symbol is in the answer for every order, and the
candidates of a contested name are exactly the symbols that some order answers with: a file that
comes first has its way.
-/
namespace Papyrus.Completion

section Candidates

variable (files : List (List Symbol)) (name : String)

/-- The candidates for a name are the symbols that files give first for it. -/
theorem mem_candidates (symbol : Symbol) : symbol ∈ candidates files name ↔
    ∃ symbols ∈ files, symbols.find? (·.name = name) = some symbol := by
  rw [candidates, List.mem_eraseDups, List.mem_filterMap]

/-- No symbol comes twice once repetitions are erased. -/
theorem nodup_eraseDups (symbols : List Symbol) : symbols.eraseDups.Nodup := by
  induction symbols using List.reverseRecOn with
  | nil => exact List.nodup_nil
  | append_singleton symbols last inductionHypothesis =>
    rw [List.eraseDups_append]
    by_cases known : last ∈ symbols
    · simpa [List.removeAll, known] using inductionHypothesis
    · have apart : List.Disjoint symbols.eraseDups [last] := by
        simpa [List.mem_eraseDups] using known
      simpa [List.removeAll, List.eraseDups_cons, known] using
        inductionHypothesis.append (List.nodup_singleton last) apart

/-- A name with one candidate is agreed on. -/
theorem offer_of_one {symbol : Symbol} (alone : candidates files name = [symbol]) :
    offer files name = .agreed symbol := by
  simp only [offer, alone]

/-- A name with any other number of candidates is contested. -/
theorem offer_of_several (several : (candidates files name).length ≠ 1) :
    offer files name = .contested name (candidates files name).length := by
  rw [offer]
  split
  next symbol alone => exact absurd (congrArg List.length alone) several
  next => rfl

/-- A name is agreed on if it has one candidate, and contested otherwise. -/
theorem offer_cases :
    (∃ symbol, candidates files name = [symbol] ∧ offer files name = .agreed symbol) ∨
      (candidates files name).length ≠ 1 ∧
        offer files name = .contested name (candidates files name).length := by
  by_cases one : (candidates files name).length = 1
  · obtain ⟨symbol, alone⟩ := List.length_eq_one_iff.mp one
    exact .inl ⟨symbol, alone, offer_of_one files name alone⟩
  · exact .inr ⟨one, offer_of_several files name one⟩

end Candidates

section Order

variable {files others : List (List Symbol)} (sameFiles : others.Perm files)

include sameFiles

/-- The candidates do not depend on the order of files, apart from their own. -/
theorem candidates_of_perm (name : String) :
    (candidates others name).Perm (candidates files name) := by
  refine (List.perm_ext_iff_of_nodup (nodup_eraseDups _) (nodup_eraseDups _)).mpr fun symbol => ?_
  show symbol ∈ candidates others name ↔ symbol ∈ candidates files name
  simp only [mem_candidates, sameFiles.mem_iff]

/-- What is offered for a name does not depend on the order of files. -/
theorem offer_of_perm (name : String) : offer others name = offer files name := by
  have same := candidates_of_perm sameFiles name
  obtain ⟨symbol, alone, agreed⟩ | ⟨several, contested⟩ := offer_cases files name
  · rw [agreed, offer_of_one others name (List.perm_singleton.mp (alone ▸ same))]
  · rw [contested, offer_of_several others name (same.length_eq ▸ several), same.length_eq]

end Order

section Names

variable (index : Index) (parent : Option String)

/-- The names that a general request lists besides the inherited ones. -/
def otherNames (files : List (List Symbol)) : List String :=
  (elsewhere ((inherited index parent).map (·.name)) files).map (·.name)

/-- The stable part of an answer to a general request offers something for each other name. -/
theorem stableQueryOver_general (files : List (List Symbol)) :
    stableQueryOver index files (.general parent) =
      ⟨inherited index parent, (otherNames index parent files).mergeSort.map (offer files)⟩ := rfl

/-- No other name is listed twice. -/
theorem nodup_otherNames (files : List (List Symbol)) : (otherNames index parent files).Nodup := by
  have distinct := general_names_nodup index parent files
  rw [queryOver, List.map_append] at distinct
  exact distinct.of_append_right

/-- The other names are those that some file has and that are not inherited. -/
theorem mem_otherNames (files : List (List Symbol)) (name : String) :
    name ∈ otherNames index parent files ↔ name ∉ (inherited index parent).map (·.name) ∧
      ∃ symbols ∈ files, (symbols.find? (·.name = name)).isSome := by
  rw [otherNames, mem_names_iff, ← List.head?_filter, elsewhere, filter_firstOfName,
    List.find?_flatten]
  split
  next known => simp [known]
  next isNew => simp [isNew]

/-- The other names do not depend on the order of files, once sorted. -/
theorem sorted_otherNames_of_perm {files others : List (List Symbol)}
    (sameFiles : others.Perm files) :
    (otherNames index parent others).mergeSort = (otherNames index parent files).mergeSort := by
  have same : (otherNames index parent others).Perm (otherNames index parent files) := by
    refine (List.perm_ext_iff_of_nodup (nodup_otherNames ..) (nodup_otherNames ..)).mpr ?_
    intro name
    simp only [mem_otherNames, sameFiles.mem_iff]
  have sorted : (otherNames index parent others).mergeSort.Perm
      (otherNames index parent files).mergeSort :=
    (List.mergeSort_perm _ _).trans (same.trans (List.mergeSort_perm _ _).symm)
  exact sorted.eq_of_sortedLE List.sortedLE_mergeSort List.sortedLE_mergeSort

/-- The stable part of an answer does not depend on the order of files. -/
theorem stableQueryOver_of_perm (context : Context) {files others : List (List Symbol)}
    (sameFiles : others.Perm files) :
    stableQueryOver index others context = stableQueryOver index files context := by
  cases context with
  | member target => rfl
  | general parent =>
    have offers : offer others = offer files := funext (offer_of_perm sameFiles)
    rw [stableQueryOver_general, stableQueryOver_general, offers,
      sorted_otherNames_of_perm index parent sameFiles]

end Names

section Exactness

variable (index : Index) (parent : Option String) (files : List (List Symbol))

/-- The offers of the stable part are those for the other names. -/
theorem mem_rest (offered : Offer Symbol) :
    offered ∈ (stableQueryOver index files (.general parent)).rest ↔
      ∃ name ∈ otherNames index parent files, offer files name = offered := by
  simp only [stableQueryOver_general, List.mem_map, List.mem_mergeSort]

variable {index parent files} {name : String}

/-- The symbol of a name that is not inherited is the first symbol of that name in the first
file that has one. -/
theorem mem_answer_iff (files : List (List Symbol))
    (isNew : name ∉ (inherited index parent).map (·.name)) (symbol : Symbol) :
    symbol ∈ queryOver index files (.general parent) ∧ symbol.name = name ↔
      files.findSome? (·.find? (·.name = name)) = some symbol := by
  have absent : (parentMembers index parent).find? (·.name = name) = none := by
    rw [mem_inherited_names_iff] at isNew
    exact Option.not_isSome_iff_eq_none.mp isNew
  have answered := filter_general index parent files name
  rw [absent, Option.map_none, Option.none_or] at answered
  rw [← Option.mem_toList, ← answered, List.mem_filter, decide_eq_true_iff]

/-- The candidates for a name that is not inherited are the symbols that answers have for it, the
files being taken in any order. -/
theorem mem_candidates_iff_order (isNew : name ∉ (inherited index parent).map (·.name))
    (symbol : Symbol) : symbol ∈ candidates files name ↔ symbol.name = name ∧
      ∃ others, others.Perm files ∧ symbol ∈ queryOver index others (.general parent) := by
  rw [mem_candidates]
  constructor
  · rintro ⟨symbols, member, found⟩
    -- The file that gives the symbol is put in front of the others.
    have front : (symbols :: files.erase symbols).findSome? (·.find? (·.name = name)) =
        some symbol := by
      rw [List.findSome?_cons, found]
    obtain ⟨answered, named⟩ := (mem_answer_iff _ isNew symbol).mpr front
    exact ⟨named, _, (List.perm_cons_erase member).symm, answered⟩
  · rintro ⟨named, others, sameFiles, answered⟩
    have first := (mem_answer_iff others isNew symbol).mp ⟨answered, named⟩
    obtain ⟨symbols, member, found⟩ := List.exists_of_findSome?_eq_some first
    exact ⟨symbols, sameFiles.mem_iff.mp member, found⟩

/-- Every symbol of an answer is inherited, agreed on or has a contested name. -/
theorem offered_of_mem_answer {symbol : Symbol}
    (answered : symbol ∈ queryOver index files (.general parent)) :
    symbol ∈ inherited index parent ∨
      .agreed symbol ∈ (stableQueryOver index files (.general parent)).rest ∨
      ∃ count, .contested symbol.name count ∈
        (stableQueryOver index files (.general parent)).rest := by
  obtain inFirst | inRest := List.mem_append.mp answered
  · exact .inl inFirst
  have named : symbol.name ∈ otherNames index parent files := List.mem_map_of_mem inRest
  have isNew := ((mem_otherNames index parent files symbol.name).mp named).1
  have candidate : symbol ∈ candidates files symbol.name :=
    (mem_candidates_iff_order isNew symbol).mpr ⟨rfl, files, .refl files, answered⟩
  simp only [mem_rest]
  obtain ⟨only, alone, agreed⟩ | ⟨_, contested⟩ := offer_cases files symbol.name
  · rw [alone, List.mem_singleton] at candidate
    exact .inr (.inl ⟨symbol.name, named, candidate ▸ agreed⟩)
  · exact .inr (.inr ⟨_, symbol.name, named, contested⟩)

/-- A name that is listed has a symbol in the answer, which is among its candidates. -/
theorem exists_answer (listed : name ∈ otherNames index parent files) :
    ∃ symbol ∈ candidates files name, symbol ∈ queryOver index files (.general parent) := by
  obtain ⟨isNew, -⟩ := (mem_otherNames index parent files name).mp listed
  obtain ⟨symbol, inRest, named⟩ := List.mem_map.mp listed
  have answered : symbol ∈ queryOver index files (.general parent) :=
    List.mem_append_right _ inRest
  exact ⟨symbol, (mem_candidates_iff_order isNew symbol).mpr ⟨named, files, .refl files, answered⟩,
    answered⟩

/-- A symbol agreed on is in the answer. -/
theorem mem_answer_of_agreed {symbol : Symbol}
    (offered : .agreed symbol ∈ (stableQueryOver index files (.general parent)).rest) :
    symbol ∈ queryOver index files (.general parent) := by
  obtain ⟨name, listed, found⟩ := (mem_rest ..).mp offered
  obtain ⟨answer, candidate, answered⟩ := exists_answer listed
  obtain ⟨only, alone, agreed⟩ | ⟨_, contested⟩ := offer_cases files name
  · obtain rfl : only = symbol := Offer.agreed.inj (agreed.symm.trans found)
    rw [alone, List.mem_singleton] at candidate
    exact candidate ▸ answered
  · cases contested.symm.trans found

/-- A contested name has the number of candidates that its offer says, and more than one. -/
theorem candidates_of_contested {count : Nat}
    (offered : .contested name count ∈ (stableQueryOver index files (.general parent)).rest) :
    name ∉ (inherited index parent).map (·.name) ∧ (candidates files name).length = count ∧
      1 < count := by
  obtain ⟨listedName, listed, found⟩ := (mem_rest ..).mp offered
  obtain ⟨_, candidate, _⟩ := exists_answer listed
  have some : 0 < (candidates files listedName).length := List.length_pos_of_mem candidate
  obtain ⟨_, _, agreed⟩ | ⟨several, contested⟩ := offer_cases files listedName
  · cases agreed.symm.trans found
  · obtain ⟨rfl, rfl⟩ := Offer.contested.inj (contested.symm.trans found)
    exact ⟨((mem_otherNames ..).mp listed).1, rfl, by omega⟩

end Exactness

/-- The stable part of an answer to a general request says exactly what the orders of the files
have in common. It is the same for each of them. The answer for each of them starts with its
inherited members, and each other symbol of an answer has an offer. A symbol agreed on is in all
answers. For a contested name there are as many symbols as the offer says, more than one, that an
answer may have. -/
theorem stable_part_is_exact (index : Index) (parent : Option String) {files : List (List Symbol)}
    (listed : files.Perm (index.files.entries.map (·.2))) :
    let stable := stableQuery index (.general parent)
    let answer := queryOver index files (.general parent)
    stableQueryOver index files (.general parent) = stable ∧
    stable.ordered <+: answer ∧
    (∀ symbol ∈ answer, symbol ∈ stable.ordered ∨ .agreed symbol ∈ stable.rest ∨
      ∃ count, .contested symbol.name count ∈ stable.rest) ∧
    (∀ symbol, .agreed symbol ∈ stable.rest → symbol ∈ answer) ∧
    ∀ name count, .contested name count ∈ stable.rest → 1 < count ∧
      ∃ symbols : List Symbol, symbols.Nodup ∧ symbols.length = count ∧
        ∀ symbol, symbol ∈ symbols ↔ symbol.name = name ∧ ∃ others,
          others.Perm files ∧ symbol ∈ queryOver index others (.general parent) := by
  intro stable answer
  have same : stableQueryOver index files (.general parent) = stable :=
    stableQueryOver_of_perm index (.general parent) listed
  rw [← same]
  refine ⟨rfl, List.prefix_append _ _, fun symbol => offered_of_mem_answer, fun symbol =>
    mem_answer_of_agreed, ?_⟩
  intro name count offered
  obtain ⟨isNew, counted, several⟩ := candidates_of_contested offered
  exact ⟨several, candidates files name, nodup_eraseDups _, counted,
    mem_candidates_iff_order isNew⟩

end Papyrus.Completion
