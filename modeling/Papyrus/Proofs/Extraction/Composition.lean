import Papyrus.Proofs.Extraction.Exactness

/-!
# Texts put together

A text can be cut in two and each part read by itself, if the cut is between two lines and no
comment above it can belong to a declaration below it. The second part is then read with the
script in force at the end of the first for its fallback: that is all that the second part has to
know of the first.

The condition is on the last line above the cut alone. Documentation is gathered upwards from a
declaration without leaving out a line, so a last line that is neither a comment nor a block keeps
everything above it away from what is below.
-/
namespace Papyrus

open Text

namespace Text

/-- A line feed ends the line being read, and what follows it is read afresh. -/
theorem linesFrom_append (current first second : List Char) :
    linesFrom current (first ++ '\n' :: second) =
      linesFrom current (first ++ ['\n']) ++ linesFrom [] second := by
  induction first generalizing current with
  | nil => simp [linesFrom]
  | cons c rest inductionHypothesis =>
    by_cases ends : c = '\n'
    · simp [ends, linesFrom, inductionHypothesis]
    · simp [ends, linesFrom, inductionHypothesis]

/-- The lines of two texts are those of both, if the first is empty or ends with a line. -/
theorem lines_append {first : List Char} (ends : first = [] ∨ first.getLast? = some '\n')
    (second : List Char) : lines (first ++ second) = lines first ++ lines second := by
  rcases ends with rfl | closed
  · rfl
  · obtain ⟨front, rfl⟩ := List.getLast?_eq_some_iff.mp closed
    rw [List.append_assoc, List.singleton_append]
    exact linesFrom_append [] front second

end Text

namespace Documentation

/-- A line that can be part of a documentation: a comment, or a block in braces. -/
def Documents (line : List Char) : Prop :=
  (∃ text, trim line = ';' :: text) ∨ ∃ text, trim line = '\x7b' :: (text ++ ['\x7d'])

/-- A comment begins with a semicolon. -/
theorem isSome_comment?_iff (line : List Char) :
    (comment? line).isSome ↔ ∃ text, trim line = ';' :: text := by
  unfold comment?
  split
  next text trimmed => simp [trimmed]
  next other => exact iff_of_false (by simp) fun ⟨text, trimmed⟩ => other text trimmed

/-- A block begins with one brace and ends with another. -/
theorem isSome_block?_iff (line : List Char) :
    (block? line).isSome ↔ ∃ text, trim line = '\x7b' :: (text ++ ['\x7d']) := by
  unfold block?
  split
  next rest trimmed =>
    simp only [trimmed, List.cons.injEq, true_and, ← List.getLast?_eq_some_iff]
    split <;> simp [*]
  next other => exact iff_of_false (by simp) fun ⟨text, trimmed⟩ => other _ trimmed

/-- Whether a line can be part of a documentation is found by looking for both forms. -/
theorem documents_iff (line : List Char) :
    Documents line ↔ (comment? line).isSome ∨ (block? line).isSome := by
  rw [isSome_comment?_iff, isSome_block?_iff, Documents]

instance : DecidablePred Documents := fun line => decidable_of_iff _ (documents_iff line).symm

/-- The search for documentation ends at a line that can be no part of one. -/
theorem gather_of_not_documents {line : List Char} (silent : ¬ Documents line)
    (above : List (List Char)) : gather (line :: above) = [] := by
  rw [documents_iff, not_or, Option.not_isSome_iff_eq_none, Option.not_isSome_iff_eq_none] at silent
  rw [gather, silent.1, silent.2]

variable {far : List (List Char)} (apart : ∀ line ∈ far.head?, ¬ Documents line)

include apart

/-- Nothing is gathered from beyond a line that can be no part of a documentation. -/
theorem gather_append (near : List (List Char)) : gather (near ++ far) = gather near := by
  induction near with
  | nil =>
    cases far with
    | nil => rfl
    | cons line above => exact gather_of_not_documents (apart line rfl) above
  | cons line near inductionHypothesis =>
    rw [List.cons_append, gather, gather, inductionHypothesis]

/-- A declaration is not documented from beyond a line that can be no part of a documentation. -/
theorem ofAbove_append (near : List (List Char)) : ofAbove (near ++ far) = ofAbove near := by
  have apartToo : ∀ line ∈ (far.take (reach - near.length)).head?, ¬ Documents line := by
    intro line isHead
    rw [List.head?_take] at isHead
    split at isHead
    next => exact absurd isHead (by simp)
    next => exact apart line isHead
  rw [ofAbove, ofAbove, List.take_append, gather_append apartToo]

end Documentation

namespace Heading

/-- The name of the heading after a line depends on the name before it only. -/
theorem name_after_congr {one other : Heading} (same : one.name = other.name)
    (declaration : Option Declaration) :
    (one.after declaration).name = (other.after declaration).name := by
  rcases declaration with _ | declaration
  · exact same
  · cases declaration with
    | script name parent => rfl
    | _ => exact same

/-- The heading below two lists of lines is that of the last script line of the second, or else the
one below the first. -/
theorem below_append (fallback : String) (first second : List (List Char)) :
    below fallback (first ++ second) =
      (second.filterMap ofLine?).getLast?.getD (below fallback first) := by
  rw [below, below, List.filterMap_append, List.getLast?_append]
  cases (second.filterMap ofLine?).getLast? <;> rfl

/-- The script in force at the end is that of the second list of lines, when the first gives it its
fallback. -/
theorem name_below_append (fallback : String) (first second : List (List Char)) :
    (below fallback (first ++ second)).name =
      (below (below fallback first).name second).name := by
  rw [below_append, below.eq_def (below fallback first).name]
  cases (second.filterMap ofLine?).getLast? <;> rfl

end Heading

namespace Extraction

/-- The symbols of two lists of lines are those of the first and then those of the second, which
has the first above it. -/
theorem symbolsFrom_append (heading : Heading) (above first second : List (List Char)) :
    symbolsFrom heading above (first ++ second) = symbolsFrom heading above first ++
      symbolsFrom (heading.afterLines first) (first.reverse ++ above) second := by
  induction first generalizing heading above with
  | nil => rfl
  | cons line rest inductionHypothesis =>
    have later := inductionHypothesis (heading.after (Declaration.ofLine? line)) (line :: above)
    have onward : heading.afterLines (line :: rest) =
        (heading.after (Declaration.ofLine? line)).afterLines rest := rfl
    rw [List.cons_append, symbolsFrom, symbolsFrom, later, onward, List.reverse_cons,
      List.append_assoc, List.singleton_append]
    cases Declaration.ofLine? line <;> rfl

/-- The symbols of some lines depend on the name of the heading only, and not on the lines above
that are kept away by one that can be no part of a documentation. -/
theorem symbolsFrom_of_apart {one other : Heading} (same : one.name = other.name)
    {far : List (List Char)} (apart : ∀ line ∈ far.head?, ¬ Documentation.Documents line)
    (near rest : List (List Char)) :
    symbolsFrom one (near ++ far) rest = symbolsFrom other near rest := by
  induction rest generalizing one other near with
  | nil => rfl
  | cons line rest inductionHypothesis =>
    have later := inductionHypothesis
      (Heading.name_after_congr same (Declaration.ofLine? line)) (line :: near)
    rw [List.cons_append] at later
    rw [symbolsFrom, symbolsFrom, later]
    cases Declaration.ofLine? line with
    | none => rfl
    | some declaration => simp only [symbol, same, Documentation.ofAbove_append apart]

/-- A text that another one may follow: it is empty, or it ends with a line that can be no part of
a documentation. -/
def EndsApart (text : List Char) : Prop :=
  text = [] ∨ text.getLast? = some '\n' ∧
    ∀ line ∈ (lines text).getLast?, ¬ Documentation.Documents line

instance : DecidablePred EndsApart := fun text =>
  inferInstanceAs (Decidable (text = [] ∨ text.getLast? = some '\n' ∧
    ∀ line ∈ (lines text).getLast?, ¬ Documentation.Documents line))

/-- The symbols of two texts are those of the first and then those of the second, which has the
script in force at the end of the first for its fallback. -/
theorem symbols_ofText_append {first : List Char} (apart : EndsApart first) (second : List Char)
    (fallback : String) : (ofText (first ++ second) fallback).symbols =
      (ofText first fallback).symbols ++
        (ofText second (Heading.below fallback (lines first)).name).symbols := by
  have cut : lines (first ++ second) = lines first ++ lines second :=
    lines_append (apart.imp_right And.left) second
  have silent : ∀ line ∈ (lines first).reverse.head?, ¬ Documentation.Documents line := by
    rcases apart with rfl | ⟨_, last⟩
    · exact fun line isHead => absurd isHead (by simp [lines, linesFrom])
    · rwa [List.head?_reverse]
  -- The second text starts afresh under the same name, without a parent and without lines above.
  let start : Heading := ⟨(Heading.below fallback (lines first)).name, none⟩
  have sameName : (Heading.below fallback (lines first)).name = start.name := rfl
  have afresh := symbolsFrom_of_apart sameName silent [] (lines second)
  rw [List.nil_append] at afresh
  simp only [ofText_eq, cut, symbolsFrom_append, Heading.afterLines_eq_below, List.append_nil,
    afresh, start]

/-- Extraction is compositional.

If the first text is empty, or ends with a line that is neither a comment nor a block, the symbols
of both are those of the first followed by those of the second, where the script in force at the
end of the first is the fallback of the second. There is a script for both exactly if there is one
for the second with that fallback. It is named like the script in force at the end of the second,
has the functions, events and properties of the first followed by those of the second, and has the
parent of the last script line of the second, or else that of the first. -/
theorem extraction_is_compositional (first second : List Char) (fallback : String)
    (apart : EndsApart first) :
    let owner := (Heading.below fallback (lines first)).name
    let earlier := ofText first fallback
    let later := ofText second owner
    let whole := ofText (first ++ second) fallback
    whole.symbols = earlier.symbols ++ later.symbols ∧
    whole.script.isSome = later.script.isSome ∧
    ∀ script, whole.script = some script →
      script.name = (Heading.below owner (lines second)).name ∧
      script.functions =
        Symbol.ofKind .function earlier.symbols ++ Symbol.ofKind .function later.symbols ∧
      script.events = Symbol.ofKind .event earlier.symbols ++ Symbol.ofKind .event later.symbols ∧
      script.properties =
        Symbol.ofKind .property earlier.symbols ++ Symbol.ofKind .property later.symbols ∧
      script.parent = (((lines second).filterMap Heading.ofLine?).getLast?.getD
        (Heading.below fallback (lines first))).parent := by
  intro owner earlier later whole
  have cut : lines (first ++ second) = lines first ++ lines second :=
    lines_append (apart.imp_right And.left) second
  have symbols : whole.symbols = earlier.symbols ++ later.symbols :=
    symbols_ofText_append apart second fallback
  have sameName : (Heading.below fallback (lines (first ++ second))).name =
      (Heading.below owner (lines second)).name := by
    rw [cut, Heading.name_below_append]
  refine ⟨symbols, ?_, ?_⟩
  · rw [script_ofText, script_ofText, script?, script?, sameName]
    split <;> rfl
  · intro script isScript
    rw [script_ofText, script?] at isScript
    split at isScript
    next => exact absurd isScript (by simp)
    next =>
      obtain rfl := Option.some.inj isScript
      rw [← Symbol.ofKind_append, ← Symbol.ofKind_append, ← Symbol.ofKind_append, ← symbols,
        ← Heading.below_append, ← cut]
      exact ⟨sameName, rfl, rfl, rfl, rfl⟩

/-- A function under one script, with its comment behind the cut, and another script at the end. The
parent of the first script is gone, and its event stays. -/
theorem extraction_of_two_scripts :
    let first := "ScriptName S extends P\nEvent E(\n".toList
    let second := "; on\nFunction F(\nScriptName T".toList
    let event : Symbol := ⟨"E", .event, "Event in S", ""⟩
    let function : Symbol := ⟨"F", .function, "Function in S", "on"⟩
    let script : Script := ⟨"T", none, [function], [event], []⟩
    EndsApart first ∧
      (ofText (first ++ second) "file").symbols =
        (ofText first "file").symbols ++ (ofText second "S").symbols ∧
      (ofText second "S").symbols = [function, ⟨"T", .script, "Script", ""⟩] ∧
      (ofText (first ++ second) "file").script = some script ∧
      script.events = Symbol.ofKind .event (ofText first "file").symbols ++
        Symbol.ofKind .event (ofText second "S").symbols := by
  intro first second event function script
  have apart : EndsApart first := by decide +kernel
  have owner : (Heading.below "file" (lines first)).name = "S" := by decide +kernel
  have later : (ofText second "S").symbols = [function, ⟨"T", .script, "Script", ""⟩] := by
    decide +kernel
  have given : (ofText (first ++ second) "file").script = some script := by decide +kernel
  obtain ⟨symbols, _, holds⟩ := extraction_is_compositional first second "file" apart
  obtain ⟨_, _, events, _, _⟩ := holds script given
  rw [owner] at symbols events
  exact ⟨apart, symbols, later, given, events⟩

/-- A comment right above the cut would be lost. -/
example : (ofText "; on\nFunction F(".toList "file").symbols ≠
    (ofText "; on\n".toList "file").symbols ++ (ofText "Function F(".toList "file").symbols := by
  decide +kernel

end Extraction

end Papyrus
