import Papyrus.Proofs.Declaration.Spacing
import Papyrus.Proofs.Extraction.Pass
import Papyrus.Text.Replace

/-!
# Indentation and line ends

The extraction looks at the lines of a text and never at the blanks around them. A line declares
the same without them, and comments are trimmed before they are recognised. So two texts with the
same lines but for such blanks give the same, whatever the lines say.

A carriage return is a blank. In front of a line feed it belongs to the line end if it stands alone;
of several, the last one does, and the others are blanks at the end of the line.
-/
namespace Papyrus

open Text

namespace Documentation

/-- Lines document the same without the blanks around them. -/
theorem gather_map_trim (lines : List (List Char)) : gather (lines.map trim) = gather lines := by
  induction lines with
  | nil => rfl
  | cons line above inductionHypothesis =>
    have block : block? (trim line) = block? line := by rw [block?, block?, trim_trim]
    have comment : comment? (trim line) = comment? line := by rw [comment?, comment?, trim_trim]
    rw [List.map_cons, gather, gather, block, comment, inductionHypothesis]

/-- The lines above a declaration document it without the blanks around them. -/
theorem ofAbove_map_trim (above : List (List Char)) : ofAbove (above.map trim) = ofAbove above := by
  rw [ofAbove, ofAbove, ← List.map_take, gather_map_trim]

end Documentation

/-- Lines leave the same heading without the blanks around them. -/
theorem Heading.afterLines_map_trim (heading : Heading) (lines : List (List Char)) :
    heading.afterLines (lines.map trim) = heading.afterLines lines := by
  simp only [afterLines, List.foldl_map, Declaration.ofLine?_trim]

namespace Extraction

/-- Lines give the same symbols without the blanks around them, and around the lines above. -/
theorem symbolsFrom_map_trim (heading : Heading) (above rest : List (List Char)) :
    symbolsFrom heading (above.map trim) (rest.map trim) = symbolsFrom heading above rest := by
  induction rest generalizing heading above with
  | nil => rfl
  | cons line rest inductionHypothesis =>
    have later := inductionHypothesis (heading.after (Declaration.ofLine? line)) (line :: above)
    rw [List.map_cons] at later
    rw [List.map_cons, symbolsFrom, symbolsFrom, Declaration.ofLine?_trim, later]
    cases Declaration.ofLine? line with
    | none => rfl
    | some declaration => simp only [symbol, Documentation.ofAbove_map_trim]

end Extraction

section Texts

variable {left right : List Char}

/-- Texts with the same lines but for the blanks around them give the same. -/
theorem Extraction.ofText_congr (alike : (lines left).map trim = (lines right).map trim)
    (fallback : String) : ofText left fallback = ofText right fallback := by
  have symbols := symbolsFrom_map_trim ⟨fallback, none⟩ [] (lines left)
  have heading := Heading.afterLines_map_trim ⟨fallback, none⟩ (lines left)
  rw [alike, symbolsFrom_map_trim] at symbols
  rw [alike, Heading.afterLines_map_trim] at heading
  simp only [ofText_eq, ← symbols, ← heading]

/-- Texts with the same lines but for the blanks around them name the same parent. -/
theorem declaredParent_congr (alike : (lines left).map trim = (lines right).map trim) :
    declaredParent left = declaredParent right := by
  have trimmed (text : List Char) : (lines text).filterMap Declaration.script? =
      ((lines text).map trim).filterMap Declaration.script? := by
    rw [List.filterMap_map]
    exact List.filterMap_congr fun line _ => (Declaration.script?_trim line).symm
  rw [declaredParent, declaredParent, trimmed left, trimmed right, alike]

end Texts

namespace Text

/-- A single character is replaced wherever it stands. -/
theorem replace_singleton (mark : Char) (replacement text : List Char) :
    replace [mark] replacement text =
      text.flatMap fun c => if c = mark then replacement else [c] := by
  induction text with
  | nil => simp [replace]
  | cons c rest inductionHypothesis =>
    rw [replace, List.flatMap_cons]
    by_cases isMark : c = mark
    · simp [isMark, inductionHypothesis]
    · simp [isMark, Ne.symm isMark, inductionHypothesis]

/-- A blank at the end of a text is trimmed. -/
theorem trim_concat {c : Char} (blank : isBlank c) (text : List Char) :
    trim (text ++ [c]) = trim text := by
  have start : trimStart (text ++ [c]) = trimStart text ++ [c] ∨
      trimStart (text ++ [c]) = [] ∧ trimStart text = [] := by
    rw [trimStart, trimStart, List.dropWhile_append]
    cases text.dropWhile isBlank with
    | nil => simp [blank]
    | cons first rest => simp
  rcases start with same | ⟨empty, emptyToo⟩
  · rw [trim, same]
    exact List.rdropWhile_concat_pos isBlank (trimStart text) c blank
  · rw [trim, trim, empty, emptyToo]

/-- The carriage return that belongs to a line end is a blank at the end of the line. -/
theorem trim_dropReturn (line : List Char) : trim (dropReturn line) = trim line := by
  unfold dropReturn
  split
  next ends =>
    obtain ⟨front, rfl⟩ := List.getLast?_eq_some_iff.mp ends
    rw [List.dropLast_concat, trim_concat (by decide)]
  next => rfl

/-- A carriage return in front of a line feed belongs to the line end. -/
theorem linesFrom_return (current rest : List Char) :
    linesFrom current ('\r' :: '\n' :: rest) = current.reverse :: linesFrom [] rest := by
  simp [linesFrom, dropReturn]

/-- A carriage return in front of every line feed makes no more of a line than a blank at its end.

The induction is on the text. The line that is being read is the same in both texts, because the
return is only met together with the line feed that ends the line. -/
theorem map_trim_linesFrom_returned (current text : List Char) :
    (linesFrom current (replace ['\n'] ['\r', '\n'] text)).map trim =
      (linesFrom current text).map trim := by
  rw [replace_singleton]
  induction text generalizing current with
  | nil => rfl
  | cons c rest inductionHypothesis =>
    rw [List.flatMap_cons]
    by_cases ends : c = '\n'
    · subst ends
      rw [if_pos rfl, List.cons_append, List.singleton_append, linesFrom_return, List.map_cons,
        inductionHypothesis, linesFrom, if_pos rfl, List.map_cons, trim_dropReturn]
    · simp [ends, linesFrom, inductionHypothesis]

end Text

/-- Indentation, blanks at the end of lines and the form of line ends have no part in what a text
gives.

Two texts whose lines are the same but for the blanks around them give the same symbols, the same
script and the same parent, for every fallback. In particular every line feed may be replaced by a
carriage return and a line feed, also where carriage returns stand already. -/
theorem spacing_has_no_part (fallback : String) :
    (∀ left right : List Char, (lines left).map trim = (lines right).map trim →
      Extraction.ofText left fallback = Extraction.ofText right fallback ∧
        declaredParent left = declaredParent right) ∧
    ∀ text : List Char,
      let returned := replace ['\n'] ['\r', '\n'] text
      Extraction.ofText returned fallback = Extraction.ofText text fallback ∧
        declaredParent returned = declaredParent text := by
  have alike (left right : List Char) (same : (lines left).map trim = (lines right).map trim) :
      Extraction.ofText left fallback = Extraction.ofText right fallback ∧
        declaredParent left = declaredParent right :=
    ⟨Extraction.ofText_congr same fallback, declaredParent_congr same⟩
  refine ⟨alike, ?_⟩
  intro text returned
  exact alike returned text (map_trim_linesFrom_returned [] text)

/-- A script and a function with a comment, set in by a no-break space and a tab and ended by one
return, two returns and none. -/
theorem indented_text_gives_the_same :
    let plain := "ScriptName S extends P\n; on\nFunction F (".toList
    let spaced := "\u00a0ScriptName S extends P \r\r\n\t; on\r\nFunction F ( \r".toList
    let function : Symbol := ⟨"F", .function, "Function in S", "on"⟩
    let symbols := [⟨"S", .script, "Script extends P", ""⟩, function]
    (lines spaced).map trim = (lines plain).map trim ∧
      Extraction.ofText plain "file" = ⟨symbols, some ⟨"S", some "P", [function], [], []⟩⟩ ∧
      Extraction.ofText spaced "file" = Extraction.ofText plain "file" ∧
      declaredParent spaced = declaredParent plain := by
  intro plain spaced function symbols
  have same : (lines spaced).map trim = (lines plain).map trim := by decide +kernel
  have given : Extraction.ofText plain "file" =
      ⟨symbols, some ⟨"S", some "P", [function], [], []⟩⟩ := by decide +kernel
  exact ⟨same, given, (spacing_has_no_part "file").1 spaced plain same⟩

end Papyrus
