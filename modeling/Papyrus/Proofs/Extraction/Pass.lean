import Papyrus.Extraction

/-!
# The pass over a text

The extraction goes through the lines once and fills five places on the way: the heading, the
list of all symbols, and one list for each kind of members. Here each of them is told by itself.
The heading after some lines and the symbols that they give are functions of the lines alone,
and the lists of members hold what the list of all symbols holds of their kind.

The last is an invariant of the pass. A declaration is added to a list of members according to
what it declares, while the kind is read off its symbol later on; that both say the same is what
each step preserves.
-/
namespace Papyrus

open Text

namespace Symbol

/-- The symbols of one kind, in order. -/
def ofKind (kind : Kind) (symbols : List Symbol) : List Symbol :=
  symbols.filter (·.kind = kind)

/-- The symbols of a kind in two lists are those in the first and then those in the second. -/
theorem ofKind_append (kind : Kind) (first second : List Symbol) :
    ofKind kind (first ++ second) = ofKind kind first ++ ofKind kind second :=
  List.filter_append first second

/-- A symbol at the end of a list is one of its own kind and of no other. -/
theorem ofKind_concat (kind : Kind) (symbols : List Symbol) (last : Symbol) :
    ofKind kind (symbols ++ [last]) =
      if last.kind = kind then ofKind kind symbols ++ [last] else ofKind kind symbols := by
  rw [ofKind_append]
  by_cases same : last.kind = kind <;> simp [ofKind, same]

end Symbol

namespace Heading

/-- The heading after a declaration: only a script line changes it. -/
def after (heading : Heading) : Option Declaration → Heading
  | some (.script name parent) => ⟨name, parent⟩
  | _ => heading

/-- The heading after some lines. -/
def afterLines (heading : Heading) (lines : List (List Char)) : Heading :=
  lines.foldl (fun current line => current.after (Declaration.ofLine? line)) heading

end Heading

namespace Extraction

/-- The symbols of the lines that follow a heading and the lines above. -/
def symbolsFrom (heading : Heading) (above : List (List Char)) :
    List (List Char) → List Symbol
  | [] => []
  | line :: rest =>
    let declaration := Declaration.ofLine? line
    let later := symbolsFrom (heading.after declaration) (line :: above) rest
    match declaration with
    | some declaration => symbol heading above declaration :: later
    | none => later

/-- The script that a heading and a file's symbols make up. -/
def script? (heading : Heading) (symbols : List Symbol) : Option Script :=
  if heading.name.isEmpty then none
  else some {
    name := heading.name
    parent := heading.parent
    functions := Symbol.ofKind .function symbols
    events := Symbol.ofKind .event symbols
    properties := Symbol.ofKind .property symbols }

namespace Progress

variable (progress : Progress) (line : List Char)

/-- A line changes the heading as far as it declares a script. -/
theorem heading_read :
    (progress.read line).heading = progress.heading.after (Declaration.ofLine? line) := by
  rw [read]
  cases Declaration.ofLine? line with
  | none => rfl
  | some declaration => cases declaration <;> rfl

/-- A line that was read stands above the next one. -/
theorem above_read : (progress.read line).above = line :: progress.above := rfl

/-- A line gives the symbol of what it declares. -/
theorem symbols_read :
    (progress.read line).symbols.toList = progress.symbols.toList ++
      ((Declaration.ofLine? line).map (symbol progress.heading progress.above)).toList := by
  rw [read]
  cases Declaration.ofLine? line with
  | none => exact (List.append_nil _).symm
  | some declaration => cases declaration <;> exact Array.toList_push

/-- The lists of members hold what the list of all symbols holds of their kind. -/
structure Sorted (progress : Progress) : Prop where
  functions : progress.functions.toList = Symbol.ofKind .function progress.symbols.toList
  events : progress.events.toList = Symbol.ofKind .event progress.symbols.toList
  properties : progress.properties.toList = Symbol.ofKind .property progress.symbols.toList

variable {progress}

/-- A declaration is added to the list of the kind that its symbol has. -/
theorem Sorted.add (sorted : progress.Sorted) (declaration : Declaration) :
    (progress.add declaration).Sorted := by
  have kind : (symbol progress.heading progress.above declaration).kind = declaration.kind := rfl
  obtain ⟨functions, events, properties⟩ := sorted
  cases declaration <;> constructor <;>
    simp only [Progress.add, Array.toList_push, Symbol.ofKind_concat, kind, Declaration.kind,
      functions, events, properties, reduceCtorEq, if_true, if_false]

/-- Reading a line keeps the lists of members sorted. -/
theorem Sorted.read (sorted : progress.Sorted) (line : List Char) :
    (progress.read line).Sorted := by
  rw [Progress.read]
  cases Declaration.ofLine? line with
  | none => exact ⟨sorted.functions, sorted.events, sorted.properties⟩
  | some declaration =>
    obtain ⟨functions, events, properties⟩ := sorted.add declaration
    exact ⟨functions, events, properties⟩

/-- Reading some lines keeps the lists of members sorted. -/
theorem Sorted.readLines (sorted : progress.Sorted) (lines : List (List Char)) :
    (lines.foldl Progress.read progress).Sorted := by
  induction lines generalizing progress with
  | nil => exact sorted
  | cons line rest inductionHypothesis => exact inductionHypothesis (sorted.read line)

/-- Some lines leave the heading that they leave by themselves. -/
theorem heading_readLines (progress : Progress) (lines : List (List Char)) :
    (lines.foldl read progress).heading = progress.heading.afterLines lines := by
  induction lines generalizing progress with
  | nil => rfl
  | cons line rest inductionHypothesis =>
    rw [List.foldl_cons, inductionHypothesis, heading_read]
    rfl

/-- Some lines give their symbols under the heading and behind the lines that were there. -/
theorem symbols_readLines (progress : Progress) (lines : List (List Char)) :
    (lines.foldl read progress).symbols.toList =
      progress.symbols.toList ++ symbolsFrom progress.heading progress.above lines := by
  induction lines generalizing progress with
  | nil => exact (List.append_nil _).symm
  | cons line rest inductionHypothesis =>
    rw [List.foldl_cons, inductionHypothesis, symbols_read, heading_read, above_read, symbolsFrom,
      List.append_assoc]
    cases Declaration.ofLine? line <;> rfl

/-- The script of sorted lists is the one that the heading and all symbols make up. -/
theorem Sorted.script?_eq (sorted : progress.Sorted) :
    progress.script? = Extraction.script? progress.heading progress.symbols.toList := by
  rw [script?, Extraction.script?, sorted.functions, sorted.events, sorted.properties]

end Progress

/-- What a text gives, told without the pass: the symbols of its lines, and the script that they
make up with the heading at its end. -/
theorem ofText_eq (text : List Char) (fallback : String) :
    let start : Heading := ⟨fallback, none⟩
    let symbols := symbolsFrom start [] (lines text)
    ofText text fallback =
      { symbols, script := script? (start.afterLines (lines text)) symbols } := by
  intro start symbols
  let blank : Progress := { heading := start }
  have sorted : blank.Sorted := ⟨rfl, rfl, rfl⟩
  have found : ((lines text).foldl Progress.read blank).symbols.toList = symbols :=
    Progress.symbols_readLines blank (lines text)
  have last : ((lines text).foldl Progress.read blank).heading = start.afterLines (lines text) :=
    Progress.heading_readLines blank (lines text)
  change Extraction.mk _ _ = _
  rw [(sorted.readLines (lines text)).script?_eq, found, last]

end Extraction
end Papyrus
