import Papyrus.Proofs.Declaration.Spacing
import Papyrus.Proofs.Documentation.Exactness

/-!
# Where documentation comes from

Each part of a documentation comes from one line. Keeping the places of these lines shows that no
line serves two declarations, although the search for documentation knows nothing of declarations
and reaches over several lines.

Two facts are behind this. The search leaves out no line on its way up, so that it would have to
pass the upper of two declarations to come to a comment of it. And it cannot pass a declaration: a
line that declares something begins with an identifier, a comment with a semicolon, and a block with
a brace.
-/
namespace Papyrus

open Text

namespace Declaration

/-- The places of the lines that declare something, in their order. -/
def places (lines : List (List Char)) : List Nat :=
  (lines.zipIdx.filter fun entry => (ofLine? entry.1).isSome).map (·.2)

/-- A place is listed if its line declares something. -/
theorem mem_places_iff (lines : List (List Char)) (place : Nat) :
    place ∈ places lines ↔ ∃ line, lines[place]? = some line ∧ (ofLine? line).isSome := by
  rw [places, List.mem_map]
  constructor
  · rintro ⟨⟨line, other⟩, member, rfl⟩
    obtain ⟨isLine, declares⟩ := List.mem_filter.mp member
    exact ⟨line, List.mem_zipIdx_iff_getElem?.mp isLine, declares⟩
  · rintro ⟨line, isLine, declares⟩
    exact ⟨(line, place), List.mem_filter.mpr ⟨List.mem_zipIdx_iff_getElem?.mpr isLine, declares⟩, rfl⟩

/-- A line declares nothing if it begins with neither a blank nor an identifier. -/
theorem ofLine?_cons_eq_none {c : Char} (solid : isBlank c = false) (noWord : isWord c = false)
    (rest : List Char) : ofLine? (c :: rest) = none := by
  have start : trimStart (c :: rest) = c :: rest := by simp [trimStart, solid]
  have unread : word? (c :: rest) = none := by simp [word?, noWord]
  have keyword (spelling : List Char) : afterKeyword? spelling (c :: rest) = none := by
    rw [afterKeyword?, unread]
  have typed (spelling : List Char) : typedKeyword? spelling (c :: rest) = none := by
    rw [typedKeyword?, type?, unread]
    rfl
  simp [ofLine?, script?, function?, procedure?, typedFunction?, event?, property?, start, keyword,
    typed]

end Declaration

namespace Documentation

/-- A line that can be part of a documentation declares nothing. -/
theorem Documents.ofLine?_eq_none {line : List Char} (documents : Documents line) :
    Declaration.ofLine? line = none := by
  rw [← Declaration.ofLine?_trim]
  rcases documents with ⟨text, trimmed⟩ | ⟨text, trimmed⟩
  · rw [trimmed]
    exact Declaration.ofLine?_cons_eq_none (by decide) (by decide) text
  · rw [trimmed]
    exact Declaration.ofLine?_cons_eq_none (by decide) (by decide) _

section Placed

/-- What a line gives to a documentation, if it can be part of one. -/
def text? (line : List Char) : Option (List Char) :=
  (block? line).or (comment? line)

/-- A line that gives something can be part of a documentation. -/
theorem documents_of_text? {line text : List Char} (gives : text? line = some text) :
    Documents line := by
  rw [documents_iff]
  rcases Option.or_eq_some_iff.mp gives with block | ⟨_, comment⟩
  · exact .inr (Option.isSome_of_eq_some block)
  · exact .inl (Option.isSome_of_eq_some comment)

/-- The comments found when reading upwards, each with the place of its line. -/
def gatherPlaced : List (List Char × Nat) → List (List Char × Nat)
  | [] => []
  | entry :: above =>
    match block? entry.1, comment? entry.1 with
    | some text, _ => [(text, entry.2)]
    | none, some text => (text, entry.2) :: gatherPlaced above
    | none, none => []

/-- Places have no part in what is gathered. -/
theorem map_fst_gatherPlaced (entries : List (List Char × Nat)) :
    (gatherPlaced entries).map (·.1) = gather (entries.map (·.1)) := by
  induction entries with
  | nil => rfl
  | cons entry above inductionHypothesis =>
    rw [gatherPlaced, List.map_cons, gather]
    cases block? entry.1 <;> cases comment? entry.1 <;> simp [inductionHypothesis]

/-- No line is left out on the way up. -/
theorem map_snd_gatherPlaced_prefix (entries : List (List Char × Nat)) :
    (gatherPlaced entries).map (·.2) <+: entries.map (·.2) := by
  induction entries with
  | nil => exact List.prefix_rfl
  | cons entry above inductionHypothesis =>
    rw [gatherPlaced]
    cases block? entry.1 <;> cases comment? entry.1 <;> simp [inductionHypothesis]

/-- What is gathered with a place is what the line at that place gives. -/
theorem exists_of_mem_gatherPlaced {entries : List (List Char × Nat)} {source : List Char × Nat}
    (member : source ∈ gatherPlaced entries) :
    ∃ line, (line, source.2) ∈ entries ∧ text? line = some source.1 := by
  induction entries with
  | nil => exact absurd member List.not_mem_nil
  | cons entry above inductionHypothesis =>
    rw [gatherPlaced] at member
    split at member
    next text block =>
      obtain rfl := List.mem_singleton.mp member
      exact ⟨entry.1, List.mem_cons_self, by simp [text?, block]⟩
    next text noBlock comment =>
      rcases List.mem_cons.mp member with rfl | further
      · exact ⟨entry.1, List.mem_cons_self, by simp [text?, noBlock, comment]⟩
      · obtain ⟨line, isEntry, gives⟩ := inductionHypothesis further
        exact ⟨line, List.mem_cons_of_mem entry isEntry, gives⟩
    next => exact absurd member List.not_mem_nil

end Placed

section Sources

/-- The lines within reach of a place, the nearest first, each with its own place. -/
def placedWindow (lines : List (List Char)) (place : Nat) : List (List Char × Nat) :=
  ((lines.zipIdx.take place).drop (place - reach)).reverse

/-- The parts of the documentation of a declaration on the given line, the lowest first, each with
the place of the line that it comes from. -/
def sources (lines : List (List Char)) (place : Nat) : List (List Char × Nat) :=
  gatherPlaced (placedWindow lines place)

/-- The documentation is put together from its parts. -/
theorem ofLines_eq_sources (lines : List (List Char)) (place : Nat) :
    ofLines lines place = ['\n'].intercalate ((sources lines place).map (·.1)).reverse := by
  have lines_only : (placedWindow lines place).map (·.1) = window lines place := by
    rw [placedWindow, List.map_reverse, List.map_drop, List.map_take, List.zipIdx_map_fst, window]
  rw [ofLines_eq_intercalate, sources, map_fst_gatherPlaced, lines_only]

/-- The lines within reach stand at the places right above. -/
theorem mem_placedWindow_iff (lines : List (List Char)) (place : Nat) (entry : List Char × Nat) :
    entry ∈ placedWindow lines place ↔
      lines[entry.2]? = some entry.1 ∧ place - reach ≤ entry.2 ∧ entry.2 < place := by
  rw [placedWindow, List.mem_reverse, List.mem_iff_getElem?]
  simp only [List.getElem?_drop, List.getElem?_take, List.getElem?_zipIdx, Nat.zero_add]
  constructor
  · rintro ⟨offset, found⟩
    split at found
    next inside =>
      obtain ⟨line, isLine, rfl⟩ := Option.map_eq_some_iff.mp found
      exact ⟨isLine, Nat.le_add_right _ offset, inside⟩
    next => exact absurd found.symm (Option.some_ne_none entry)
  · rintro ⟨isLine, reached, inside⟩
    refine ⟨entry.2 - (place - reach), ?_⟩
    rw [Nat.add_sub_cancel' reached, if_pos inside, isLine, Option.map_some]

/-- Going up, the places get smaller. -/
theorem pairwise_placedWindow (lines : List (List Char)) (place : Nat) :
    (placedWindow lines place).Pairwise fun near far => far.2 < near.2 := by
  have ascending : lines.zipIdx.Pairwise fun first second => first.2 < second.2 := by
    rw [← List.pairwise_map, List.zipIdx_map_snd]
    exact List.pairwise_lt_range'
  rw [placedWindow, List.pairwise_reverse]
  exact (ascending.sublist (List.take_sublist _ _)).sublist (List.drop_sublist _ _)

/-- What documents a declaration comes from lines above it that declare nothing. -/
theorem exists_of_mem_sources {lines : List (List Char)} {place : Nat} {source : List Char × Nat}
    (member : source ∈ sources lines place) :
    ∃ line, lines[source.2]? = some line ∧ text? line = some source.1 ∧
      Declaration.ofLine? line = none ∧ source.2 < place := by
  obtain ⟨line, isEntry, gives⟩ := exists_of_mem_gatherPlaced member
  obtain ⟨isLine, _, inside⟩ := (mem_placedWindow_iff lines place _).mp isEntry
  exact ⟨line, isLine, gives, (documents_of_text? gives).ofLine?_eq_none, inside⟩

/-- Every line between a declaration and a line that documents it documents it too. -/
theorem mem_sources_of_between {lines : List (List Char)} {place far near : Nat}
    (isSource : far ∈ (sources lines place).map (·.2)) (between : far ≤ near) (below : near < place)
    (exists_near : near < lines.length) : near ∈ (sources lines place).map (·.2) := by
  obtain ⟨rest, whole⟩ := map_snd_gatherPlaced_prefix (placedWindow lines place)
  rw [← sources] at whole
  have descending := pairwise_placedWindow lines place
  rw [← List.pairwise_map (R := fun near far : Nat => far < near), ← whole,
    List.pairwise_append] at descending
  have reached : near ∈ (placedWindow lines place).map (·.2) := by
    obtain ⟨⟨line, _⟩, isEntry, rfl⟩ : ∃ entry ∈ placedWindow lines place, entry.2 = far := by
      rw [← List.mem_map, ← whole]
      exact List.mem_append_left rest isSource
    obtain ⟨_, withinReach, _⟩ := (mem_placedWindow_iff lines place _).mp isEntry
    refine List.mem_map.mpr ⟨(lines[near], near), ?_, rfl⟩
    rw [mem_placedWindow_iff]
    exact ⟨List.getElem?_eq_getElem exists_near, withinReach.trans between, below⟩
  rw [← whole, List.mem_append] at reached
  rcases reached with isSource | beyond
  · exact isSource
  · -- What is not gathered any more stands above everything that is.
    exact absurd (descending.2.2 far isSource near beyond) (Nat.not_lt.mpr between)

/-- Two declarations have no line in common that documents them. The search from the lower one would
have to pass the upper one. -/
theorem disjoint_sources {lines : List (List Char)} {upper lower : Nat} (above : upper < lower)
    (declares : upper ∈ Declaration.places lines) :
    List.Disjoint ((sources lines upper).map (·.2)) ((sources lines lower).map (·.2)) := by
  intro place ofUpper ofLower
  obtain ⟨source, isSource, rfl⟩ := List.mem_map.mp ofUpper
  obtain ⟨_, _, _, _, higher⟩ := exists_of_mem_sources isSource
  obtain ⟨line, isLine, declaresThere⟩ := (Declaration.mem_places_iff lines upper).mp declares
  obtain ⟨exists_upper, _⟩ := List.getElem?_eq_some_iff.mp isLine
  have passed := mem_sources_of_between ofLower (Nat.le_of_lt higher) above exists_upper
  obtain ⟨part, isPart, rfl⟩ := List.mem_map.mp passed
  obtain ⟨other, isOther, _, silent, _⟩ := exists_of_mem_sources isPart
  obtain rfl := Option.some.inj (isLine.symm.trans isOther)
  rw [silent] at declaresThere
  exact Bool.noConfusion declaresThere

end Sources

end Documentation

namespace Extraction

open Documentation

/-- A declaration is listed with its documentation, whatever it declares. -/
theorem documentation_listing (owner documentation : String) (declaration : Declaration) :
    (listing owner documentation declaration).documentation = documentation := by
  cases declaration with
  | script name parent => cases parent <;> rfl
  | _ => rfl

/-- The symbols of a text are documented by what is found above the places of its declarations. -/
theorem map_documentation_ofText (text : List Char) (fallback : String) :
    (ofText text fallback).symbols.map (·.documentation) =
      (Declaration.places (lines text)).map fun place =>
        String.ofList (ofLines (lines text) place) := by
  rw [symbols_ofText, Declaration.places]
  induction (lines text).zipIdx with
  | nil => rfl
  | cons entry rest inductionHypothesis =>
    cases declares : Declaration.ofLine? entry.1 with
    | none => simpa [symbolAt, declares] using inductionHypothesis
    | some declaration =>
      simpa [symbolAt, declares, documentation_listing] using inductionHypothesis

/-- No comment documents two declarations.

The documentation of the symbols of a text is put together from parts, each of which is what one
line gives that declares nothing. Lines that document different declarations are different. -/
theorem no_comment_documents_two_declarations (text : List Char) (fallback : String) :
    let all := lines text
    let places := Declaration.places all
    ((ofText text fallback).symbols.map (·.documentation) = places.map fun place =>
      String.ofList (['\n'].intercalate ((sources all place).map (·.1)).reverse)) ∧
    (∀ place ∈ places, ∀ source ∈ sources all place,
      ∃ line, all[source.2]? = some line ∧ text? line = some source.1 ∧
        Declaration.ofLine? line = none) ∧
    ∀ one ∈ places, ∀ other ∈ places, one ≠ other →
      List.Disjoint ((sources all one).map (·.2)) ((sources all other).map (·.2)) := by
  intro all places
  refine ⟨?_, ?_, ?_⟩
  · rw [map_documentation_ofText]
    exact List.map_congr_left fun place _ => by rw [ofLines_eq_sources]
  · intro place _ source isSource
    obtain ⟨line, isLine, gives, silent, _⟩ := exists_of_mem_sources isSource
    exact ⟨line, isLine, gives, silent⟩
  · intro one isOne other isOther apart
    rcases Nat.lt_or_gt_of_ne apart with above | below
    · exact disjoint_sources above isOne
    · exact (disjoint_sources below isOther).symm

/-- An event with a comment, one right below it without any, and a function below a block and a
comment. -/
theorem comments_of_three_declarations :
    let text := "; a\nEvent E(\nEvent F(\n\x7b b \x7d\n;c\nFunction G(".toList
    let all := lines text
    Declaration.places all = [1, 2, 5] ∧ sources all 1 = [("a".toList, 0)] ∧
      sources all 2 = [] ∧ sources all 5 = [("c".toList, 4), ("b".toList, 3)] ∧
      (ofText text "file").symbols.map (·.documentation) = ["a", "", "b\nc"] ∧
      List.Disjoint ((sources all 1).map (·.2)) ((sources all 5).map (·.2)) := by
  intro text all
  have places : Declaration.places all = [1, 2, 5] := by decide +kernel
  have first : sources all 1 = [("a".toList, 0)] := by decide +kernel
  have second : sources all 2 = [] := by decide +kernel
  have third : sources all 5 = [("c".toList, 4), ("b".toList, 3)] := by decide +kernel
  obtain ⟨documented, _, disjoint⟩ := no_comment_documents_two_declarations text "file"
  refine ⟨places, first, second, third, ?_, ?_⟩
  · rw [documented, places, List.map_cons, List.map_cons, List.map_singleton, first, second, third]
    decide
  · rw [places] at disjoint
    exact disjoint 1 (by decide) 5 (by decide) (by decide)

end Extraction
end Papyrus
