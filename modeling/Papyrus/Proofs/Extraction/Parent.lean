import Mathlib.Data.List.Induction
import Papyrus.Proofs.Declaration.Classifiers
import Papyrus.Proofs.Extraction.Pass

/-!
# The parent of a text's script

A text names its parent in two ways. The extraction goes through all lines with a heading that
every script line replaces, and gives the script the parent of the last heading. The parent
alone is found by looking at the script lines only and taking the last of them. The two agree,
because a line that reads as a script is taken for a script whatever else it reads as, and no
other line changes the heading.
-/
namespace Papyrus

open Text

namespace Heading

/-- Nothing but what reads as a script changes the heading. -/
theorem after_ofLine? (heading : Heading) (line : List Char) :
    heading.after (Declaration.ofLine? line) = heading.after (Declaration.script? line) := by
  cases script : Declaration.script? line with
  | some declaration =>
    rw [Declaration.ofLine?, script]
    rfl
  | none =>
    cases read : Declaration.ofLine? line with
    | none => rfl
    | some declaration =>
      cases declaration with
      | script name parent => exact absurd rfl (Declaration.kind_ne_script script read)
      | _ => rfl

/-- The last line that reads as a script decides the heading after some lines. -/
theorem afterLines_eq (heading : Heading) (lines : List (List Char)) :
    heading.afterLines lines = heading.after (lines.filterMap Declaration.script?).getLast? := by
  induction lines using List.reverseRecOn with
  | nil => rfl
  | append_singleton lines line inductionHypothesis =>
    have last : heading.afterLines (lines ++ [line]) =
        (heading.afterLines lines).after (Declaration.script? line) := by
      rw [afterLines, List.foldl_append, ← after_ofLine?]
      rfl
    rw [last, List.filterMap_append]
    cases read : Declaration.script? line with
    | none =>
      rw [List.filterMap_cons_none read, List.filterMap_nil, List.append_nil, ← inductionHypothesis]
      rfl
    | some declaration =>
      obtain ⟨name, parent, rfl⟩ := Declaration.eq_of_script? read
      rw [List.filterMap_cons_some read, List.filterMap_nil, List.getLast?_concat]
      rfl

end Heading

/-- The parent that is found alone is the one of the last heading. -/
theorem declaredParent_eq (text : List Char) (fallback : String) :
    declaredParent text = ((⟨fallback, none⟩ : Heading).afterLines (lines text)).parent := by
  rw [Heading.afterLines_eq, declaredParent]
  cases (lines text).filterMap Declaration.script? |>.getLast? with
  | none => rfl
  | some declaration => cases declaration <;> rfl

/-- The script of a text has the parent that is found alone. -/
theorem Extraction.parent_of_ofText {text : List Char} {fallback : String} {script : Script}
    (found : (ofText text fallback).script = some script) :
    script.parent = declaredParent text := by
  rw [declaredParent_eq text fallback]
  simp only [ofText_eq, script?] at found
  split at found
  next => exact absurd found (by simp)
  next =>
    obtain rfl := Option.some.inj found
    rfl

end Papyrus
