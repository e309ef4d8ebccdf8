import Mathlib.Data.List.Perm.Basic
import Papyrus.Proofs.Extraction.Parent

/-!
# What a text gives

The extraction goes through a text once, with the heading in force and the lines above at hand.
What it gives is told here by places: each line is looked at by itself, the heading is looked up
among the script lines above it, and the documentation is the one for its place.

The heading changes on the way and the script is made at the end, from the last heading and from
all symbols of the text. So a member that stands under an earlier heading names that one in its
detail and is a member of the script all the same.
-/
namespace Papyrus

open Text

namespace Heading

/-- The heading that a line sets, if it declares a script. -/
def ofLine? (line : List Char) : Option Heading :=
  match Declaration.ofLine? line with
  | some (.script name parent) => some ⟨name, parent⟩
  | _ => none

/-- The heading below some lines: that of the last script line, or else one with the fallback for
its name and without a parent. -/
def below (fallback : String) (lines : List (List Char)) : Heading :=
  (lines.filterMap ofLine?).getLast?.getD ⟨fallback, none⟩

/-- A line leaves the heading that it sets, or the one in force. -/
theorem after_eq_getD (heading : Heading) (line : List Char) :
    heading.after (Declaration.ofLine? line) = (ofLine? line).getD heading := by
  rw [ofLine?]
  cases Declaration.ofLine? line with
  | none => rfl
  | some declaration => cases declaration <;> rfl

/-- Some lines leave the heading that the last script line sets, or the one in force. -/
theorem afterLines_eq_getD (heading : Heading) (lines : List (List Char)) :
    heading.afterLines lines = (lines.filterMap ofLine?).getLast?.getD heading := by
  induction lines generalizing heading with
  | nil => rfl
  | cons line rest inductionHypothesis =>
    change (heading.after (Declaration.ofLine? line)).afterLines rest = _
    rw [inductionHypothesis, after_eq_getD]
    cases sets : ofLine? line with
    | none =>
      rw [List.filterMap_cons_none sets]
      rfl
    | some other =>
      rw [List.filterMap_cons_some sets, List.getLast?_cons]
      cases (rest.filterMap ofLine?).getLast? <;> rfl

/-- What a text leaves of the heading it starts with is the heading below its lines. -/
theorem afterLines_eq_below (fallback : String) (lines : List (List Char)) :
    (⟨fallback, none⟩ : Heading).afterLines lines = below fallback lines :=
  afterLines_eq_getD ⟨fallback, none⟩ lines

/-- One line more has the heading below it that the line leaves. -/
theorem below_concat (fallback : String) (lines : List (List Char)) (line : List Char) :
    below fallback (lines ++ [line]) =
      (below fallback lines).after (Declaration.ofLine? line) := by
  rw [below, below, ← afterLines_eq_getD, ← afterLines_eq_getD, afterLines, List.foldl_append]
  rfl

/-- A script line gives its script a name. -/
theorem name_ne_empty_of_ofLine? {line : List Char} {heading : Heading}
    (sets : ofLine? line = some heading) : heading.name ≠ "" := by
  rw [ofLine?] at sets
  split at sets
  next name parent declares =>
    obtain rfl := Option.some.inj sets
    have read := Declaration.script?_of_ofLine? declares
    simp only [Declaration.script?, Option.bind_eq_bind, Option.bind_eq_some_iff] at read
    obtain ⟨_, _, ⟨word, rest⟩, isWord, same⟩ := read
    have nonempty : word ≠ [] := ((Declaration.word?_eq_some_iff _ _ _).mp isWord).2.1.1
    obtain ⟨isName, _⟩ := Declaration.script.inj (Option.some.inj same)
    rwa [← isName, ne_eq, String.ofList_eq_empty_iff]
  next => exact absurd sets.symm (Option.some_ne_none heading)

/-- There is no name below some lines if they have no script line and the fallback is empty, and
only then. -/
theorem name_below_eq_empty_iff (fallback : String) (lines : List (List Char)) :
    (below fallback lines).name = "" ↔ lines.filterMap ofLine? = [] ∧ fallback = "" := by
  rw [below]
  cases last : (lines.filterMap ofLine?).getLast? with
  | none => simp [List.getLast?_eq_none_iff.mp last]
  | some heading =>
    have member : heading ∈ lines.filterMap ofLine? := List.mem_of_getLast? last
    obtain ⟨line, _, sets⟩ := List.mem_filterMap.mp member
    simp [name_ne_empty_of_ofLine? sets, List.ne_nil_of_mem member]

end Heading

namespace Documentation

/-- A declaration has as many lines within reach as it may have, or fewer. -/
theorem length_window_le (lines : List (List Char)) (place : Nat) :
    (window lines place).length ≤ reach := by
  rw [window, List.length_reverse, List.length_drop, List.length_take]
  omega

/-- The documentation is all that is gathered from the lines within reach. -/
theorem ofLines_eq_intercalate (lines : List (List Char)) (place : Nat) :
    ofLines lines place = ['\n'].intercalate (gather (window lines place)).reverse := by
  rw [ofLines, ofAbove, List.take_of_length_le (length_window_le lines place)]

/-- What stands above a line of a text documents it as the text does at the place of the line. -/
theorem ofAbove_eq_ofLines (lines : List (List Char)) {place : Nat}
    (inside : place ≤ lines.length) :
    ofAbove (lines.take place).reverse = ofLines lines place := by
  have size : (lines.take place).length = place := List.length_take_of_le inside
  rw [ofLines_eq_intercalate, ofAbove, window, List.take_reverse, size]

end Documentation

namespace Extraction

/-- A declaration as it is offered to the editor, given the script that it stands in and its
documentation. -/
def listing (owner documentation : String) : Declaration → Symbol
  | .script name none => ⟨name, .script, "Script", documentation⟩
  | .script name (some parent) => ⟨name, .script, "Script extends " ++ parent, documentation⟩
  | .function name _ => ⟨name, .function, "Function in " ++ owner, documentation⟩
  | .event name => ⟨name, .event, "Event in " ++ owner, documentation⟩
  | .property name type => ⟨name, .property, type ++ " Property in " ++ owner, documentation⟩

/-- The symbol of a declaration is its listing under the heading in force. -/
theorem symbol_eq_listing (heading : Heading) (above : List (List Char))
    (declaration : Declaration) : symbol heading above declaration =
      listing heading.name (String.ofList (Documentation.ofAbove above)) declaration := by
  cases declaration with
  | script name parent => cases parent <;> rfl
  | _ => rfl

/-- The symbol of the line at a place of a text, if it declares something. -/
def symbolAt (fallback : String) (all : List (List Char)) (line : List Char) (place : Nat) :
    Option Symbol :=
  (Declaration.ofLine? line).map <|
    listing (Heading.below fallback (all.take place)).name
      (String.ofList (Documentation.ofLines all place))

/-- The symbol of the line behind some others is told by the heading below them and by themselves,
the nearest first. -/
theorem symbolAt_length (fallback : String) (before rest : List (List Char)) (line : List Char) :
    symbolAt fallback (before ++ line :: rest) line before.length =
      (Declaration.ofLine? line).map (symbol (Heading.below fallback before) before.reverse) := by
  have above : (before ++ line :: rest).take before.length = before := List.take_left
  have inside : before.length ≤ (before ++ line :: rest).length := by simp
  have documented := Documentation.ofAbove_eq_ofLines (before ++ line :: rest) inside
  rw [above] at documented
  rw [symbolAt, above, ← documented]
  exact Option.map_congr fun declaration _ => (symbol_eq_listing _ _ declaration).symm

/-- The symbols of the lines that follow some others are those of their places.

The induction is on the lines that follow. The lines above are the others in reverse, and the
heading in force is the one below them. -/
theorem symbolsFrom_eq_filterMap (fallback : String) (before rest : List (List Char)) :
    symbolsFrom (Heading.below fallback before) before.reverse rest =
      (rest.zipIdx before.length).filterMap fun entry =>
        symbolAt fallback (before ++ rest) entry.1 entry.2 := by
  induction rest generalizing before with
  | nil => rfl
  | cons line rest inductionHypothesis =>
    have later := inductionHypothesis (before ++ [line])
    rw [List.reverse_append, List.reverse_singleton, List.singleton_append, List.length_append,
      List.length_singleton, List.append_assoc, List.singleton_append] at later
    rw [symbolsFrom, ← Heading.below_concat, later, List.zipIdx_cons, List.filterMap_cons,
      symbolAt_length]
    cases Declaration.ofLine? line <;> rfl

/-- The symbols that a text gives are those of the places of its lines. -/
theorem symbols_ofText (text : List Char) (fallback : String) : (ofText text fallback).symbols =
    (lines text).zipIdx.filterMap fun entry =>
      symbolAt fallback (lines text) entry.1 entry.2 := by
  rw [ofText_eq]
  exact symbolsFrom_eq_filterMap fallback [] (lines text)

/-- The script that a text gives is made from the heading at its end and from its symbols. -/
theorem script_ofText (text : List Char) (fallback : String) : (ofText text fallback).script =
    script? (Heading.below fallback (lines text)) (ofText text fallback).symbols := by
  rw [ofText_eq, ← Heading.afterLines_eq_below]

/-- The symbols of the three kinds of members are all symbols but the scripts, in another
order. -/
theorem ofKind_append_perm (symbols : List Symbol) :
    (Symbol.ofKind .function symbols ++ Symbol.ofKind .event symbols ++
      Symbol.ofKind .property symbols).Perm (symbols.filter (·.kind ≠ .script)) := by
  induction symbols with
  | nil => rfl
  | cons symbol rest inductionHypothesis =>
    -- A member of a later list is moved past the lists before it.
    have ahead := inductionHypothesis.cons symbol
    cases isKind : symbol.kind with
    | script => simpa [Symbol.ofKind, isKind] using inductionHypothesis
    | function => simpa [Symbol.ofKind, isKind] using ahead
    | event =>
      rw [List.append_assoc] at ahead
      simpa [Symbol.ofKind, isKind] using List.perm_middle.trans ahead
    | property => simpa [Symbol.ofKind, isKind] using List.perm_middle.trans ahead

/-- What a text gives is exact, for every text and every fallback.

The symbols are those of the lines that declare something, in their order. Each has the name and
the kind of its line and the documentation for its place; its detail names the parent where the
line declares a script, and otherwise the script of the last script line above, or else the
fallback.

There is no script exactly where no line declares one and the fallback is empty. Otherwise the
script has the name and the parent of the last script line, or else the fallback and no parent.
Its functions, events and properties are the symbols of these kinds in the whole text, so that
its members are the symbols other than scripts, each as often as it stands there. -/
theorem extraction_is_exact (text : List Char) (fallback : String) :
    let all := lines text
    let result := ofText text fallback
    (result.symbols = all.zipIdx.filterMap fun (line, place) =>
      (Declaration.ofLine? line).map <|
        listing (Heading.below fallback (all.take place)).name
          (String.ofList (Documentation.ofLines all place))) ∧
    (result.script = none ↔ all.filterMap Heading.ofLine? = [] ∧ fallback = "") ∧
    ∀ script, result.script = some script →
      script.name = (Heading.below fallback all).name ∧
      script.parent = (Heading.below fallback all).parent ∧
      script.functions = result.symbols.filter (·.kind = .function) ∧
      script.events = result.symbols.filter (·.kind = .event) ∧
      script.properties = result.symbols.filter (·.kind = .property) ∧
      script.members.Perm (result.symbols.filter (·.kind ≠ .script)) := by
  intro all result
  have made : result.script = script? (Heading.below fallback all) result.symbols :=
    script_ofText text fallback
  refine ⟨symbols_ofText text fallback, ?_, ?_⟩
  · rw [made, script?, ← Heading.name_below_eq_empty_iff, ← String.isEmpty_iff]
    split <;> simp [*]
  · intro script isScript
    rw [made, script?] at isScript
    split at isScript
    next => exact absurd isScript (by simp)
    next =>
      obtain rfl := Option.some.inj isScript
      exact ⟨rfl, rfl, rfl, rfl, rfl, ofKind_append_perm result.symbols⟩

/-- An event stands above the first script line, and the last one takes the parent away. The
function under the first one is a member of the last, ahead of the event. -/
theorem members_of_two_headings :
    let text := "Event E(\nScriptName S extends P\n; on\nFunction F(\nScriptName T".toList
    let event : Symbol := ⟨"E", .event, "Event in file", ""⟩
    let function : Symbol := ⟨"F", .function, "Function in S", "on"⟩
    let symbols := [event, ⟨"S", .script, "Script extends P", ""⟩, function,
      ⟨"T", .script, "Script", ""⟩]
    ∃ script, ofText text "file" = ⟨symbols, some script⟩ ∧
      script.name = "T" ∧ script.parent = none ∧ script.members = [function, event] ∧
      script.members.Perm (symbols.filter (·.kind ≠ .script)) := by
  intro text event function symbols
  let script : Script := ⟨"T", none, [function], [event], []⟩
  have given : ofText text "file" = ⟨symbols, some script⟩ := by decide +kernel
  obtain ⟨-, -, holds⟩ := extraction_is_exact text "file"
  rw [given] at holds
  obtain ⟨-, -, -, -, -, permuted⟩ := holds script rfl
  exact ⟨script, given, rfl, rfl, rfl, permuted⟩

/-- The parent of a text's script is found by the script lines alone, whatever the fallback is. Where
the text gives a script, it is the parent of that script; where it gives none, none is found. -/
theorem parent_is_found_alone (text : List Char) (fallback : String) :
    declaredParent text = (ofText text fallback).script.bind Script.parent := by
  cases given : (ofText text fallback).script with
  | some script => exact (parent_of_ofText given).symm
  | none =>
    have unnamed : (Heading.below fallback (lines text)).name = "" := by
      rw [script_ofText, script?] at given
      split at given
      next empty => exact String.isEmpty_iff.mp empty
      next => exact absurd given (by simp)
    obtain ⟨noScriptLine, _⟩ := (Heading.name_below_eq_empty_iff fallback (lines text)).mp unnamed
    rw [declaredParent_eq text fallback, Heading.afterLines_eq_below, Heading.below, noScriptLine]
    rfl

end Extraction

end Papyrus
