import Papyrus.Proofs.Inheritance.Chain

/-!
# The chain of a script and the chain of its parent

The chain of a script goes on as the chain of its parent does, if the script itself does not
come up there. The two walks do not start alike: the one from the script has visited the
script's key when it comes to the parent, and the other has visited nothing. A key that is
visited matters only to a walk that meets it.
-/
namespace Papyrus

/-- Only the empty name has the empty key. -/
theorem Script.key_eq_empty_iff (name : String) : key name = "" ↔ name = "" := by
  rw [key, Text.foldCase, String.ofList_eq_empty_iff, List.map_eq_nil_iff, String.toList_eq_nil_iff]

namespace Inheritance

section Steps

variable {index : Index} {visited : List String} {key : String}

/-- A walk ends at a key that no script answers to. -/
theorem chainFrom_of_unanswered (unanswered : index.scriptAt? key = none) :
    chainFrom index visited key = [] := by
  rw [chainFrom]
  split
  · rfl
  · split
    · split
      · rfl
      next answered => exact absurd (unanswered.symm.trans answered) (by simp)
    · rfl

/-- A walk ends at a key that it has visited. -/
theorem chainFrom_of_visited (known : visited.contains key) : chainFrom index visited key = [] := by
  rw [chainFrom, known]
  simp

/-- At a key that is answered and was not visited, a walk meets the script and goes on to its
parent. -/
theorem chainFrom_of_answered {script : Script} (hasText : ¬ key.isEmpty)
    (isNew : visited.contains key = false) (answered : index.scriptAt? key = some script) :
    chainFrom index visited key = script :: script.parent.elim []
      fun parent => chainFrom index (key :: visited) (Script.key parent) := by
  rw [chainFrom, if_neg hasText, dif_pos isNew]
  split
  next unanswered => exact absurd (unanswered.symm.trans answered) (by simp)
  next other otherAnswered =>
    obtain rfl := Option.some.inj (otherAnswered.symm.trans answered)
    cases other.parent <;> rfl

end Steps

section Parent

variable {index : Index} (valid : index.Valid)

include valid

/-- A walk that does not meet a key goes the same way if it takes that key for visited. -/
theorem chainFrom_of_absent (visited : List String) (key extra : String)
    (absent : ∀ script ∈ chainFrom index visited key, Script.key script.name ≠ extra) :
    chainFrom index (visited ++ [extra]) key = chainFrom index visited key := by
  fun_induction chainFrom index visited key with
  | case1 visited key isEmpty => rw [chainFrom, if_pos isEmpty]
  | case2 visited key hasText isNew unanswered => exact chainFrom_of_unanswered unanswered
  | case3 visited key hasText isNew script answered alone =>
    have differs := absent script List.mem_cons_self
    rw [key_name_of_scriptAt? valid answered] at differs
    have stillNew : (visited ++ [extra]).contains key = false := by simpa [differs] using isNew
    rw [chainFrom_of_answered hasText stillNew answered, alone, Option.elim_none]
  | case4 visited key hasText isNew script answered parent extended inductionHypothesis =>
    have differs := absent script List.mem_cons_self
    rw [key_name_of_scriptAt? valid answered] at differs
    have stillNew : (visited ++ [extra]).contains key = false := by simpa [differs] using isNew
    rw [chainFrom_of_answered hasText stillNew answered, extended, Option.elim_some,
      ← List.cons_append,
      inductionHypothesis fun other met => absent other (List.mem_cons_of_mem script met)]
  | case5 visited key hasText known =>
    refine chainFrom_of_visited ?_
    have isKnown : visited.contains key := by simpa using known
    rw [List.contains_append, isKnown, Bool.true_or]

/-- A script that answers to its name stands first on its chain, and the chain of its parent
follows, if the script does not come up there. -/
theorem chain_eq_cons {script : Script} (answers : index.script? script.name = some script)
    (named : script.name ≠ "")
    (absent : ∀ parent, script.parent = some parent →
      Script.key script.name ∉ (ancestry index parent).map Script.key) :
    chain index script.name = script :: script.parent.elim [] (chain index) := by
  have hasText : ¬ (Script.key script.name).isEmpty := by
    rwa [String.isEmpty_iff, Script.key_eq_empty_iff]
  rw [chain, chainFrom_of_answered hasText rfl answers]
  cases extended : script.parent with
  | none => rfl
  | some parent =>
    rw [Option.elim_some, Option.elim_some, chain]
    congr 1
    refine chainFrom_of_absent valid [] (Script.key parent) (Script.key script.name) ?_
    intro other met same
    refine absent parent extended ?_
    rw [ancestry, List.map_map, List.mem_map]
    exact ⟨other, met, same⟩

end Parent

end Inheritance
end Papyrus
