import Mathlib.Data.List.Basic
import Papyrus.Project

/-!
# Templates

A well-formed template is a row of pieces: literal texts without braces, and placeholders. Filling
in works on the text as it is written and knows nothing of pieces. Still, one replacement does to
the text what filling one kind of hole does to the pieces, because a placeholder is found where its
brace stands and nowhere else, and no placeholder is the beginning of another.

So the replacements can be told on pieces, where the borders between texts do not matter. A value
without braces is a piece like any other once it is put in: each replacement takes away the holes
of one kind and makes no new ones. The order in which the kinds are filled in has no part in the
result.
-/
namespace Papyrus

/-- A text without braces. -/
def Text.Plain (text : List Char) : Prop :=
  '\x7b' ∉ text ∧ '\x7d' ∉ text

instance (text : List Char) : Decidable (Text.Plain text) :=
  inferInstanceAs (Decidable (_ ∧ _))

namespace Text

section Replace

variable {mark : Char} {pattern replacement text : List Char}

/-- Nothing is replaced in front of the first character of the pattern. -/
theorem replace_append_of_not_mem (absent : mark ∉ text) (rest : List Char) :
    replace (mark :: pattern) replacement (text ++ rest) =
      text ++ replace (mark :: pattern) replacement rest := by
  induction text with
  | nil => rfl
  | cons c text inductionHypothesis =>
    have differs : mark ≠ c := List.ne_of_not_mem_cons absent
    rw [List.cons_append, replace, if_neg (by simp [differs]),
      inductionHypothesis (List.not_mem_of_not_mem_cons absent), List.cons_append]

/-- The pattern is replaced where the text starts with it. -/
theorem replace_pattern_append (rest : List Char) :
    replace (mark :: pattern) replacement (mark :: pattern ++ rest) =
      replacement ++ replace (mark :: pattern) replacement rest := by
  rw [List.cons_append, replace, if_pos (by simp)]
  simp

/-- A word that starts as the pattern does, but does not go on so, is left alone. -/
theorem replace_cons_append (absent : mark ∉ text) (rest : List Char)
    (differs : ¬ mark :: pattern <+: mark :: text ++ rest) :
    replace (mark :: pattern) replacement (mark :: text ++ rest) =
      mark :: text ++ replace (mark :: pattern) replacement rest := by
  rw [List.cons_append] at differs ⊢
  rw [replace, if_neg (by rwa [List.isPrefixOf_iff_prefix]), replace_append_of_not_mem absent,
    List.cons_append]

end Replace

end Text

namespace Placeholder

/-- Every placeholder is filled in. -/
theorem mem_order (placeholder : Placeholder) : placeholder ∈ order := by
  cases placeholder <;> decide

/-- A placeholder starts with a brace, and no other follows before it ends. -/
theorem exists_pattern_eq (placeholder : Placeholder) :
    ∃ label, placeholder.pattern = '\x7b' :: label ∧ '\x7b' ∉ label := by
  refine ⟨placeholder.pattern.tail, ?_, ?_⟩ <;> cases placeholder <;> decide +kernel

/-- No placeholder is the beginning of another one: their first letters differ. -/
theorem not_prefix {one other : Placeholder} (differ : one ≠ other) (rest : List Char) :
    ¬ one.pattern <+: other.pattern ++ rest := by
  rintro ⟨tail, same⟩
  have long (placeholder : Placeholder) : 1 < placeholder.pattern.length := by
    cases placeholder <;> decide +kernel
  have sameLetter := congrArg (fun text => text[1]?) same
  simp only [List.getElem?_append_left (long one), List.getElem?_append_left (long other)]
    at sameLetter
  revert sameLetter differ
  cases one <;> cases other <;> decide +kernel

end Placeholder

namespace Template

/-- A part of a template: a text that stands for itself, or a placeholder to be filled in. -/
inductive Piece where
  | literal (text : List Char) (plain : Text.Plain text)
  | hole (placeholder : Placeholder)
  deriving DecidableEq

namespace Piece

/-- A piece as it is written. -/
def spelling : Piece → List Char
  | literal text _ => text
  | hole placeholder => placeholder.pattern

/-- What a piece stands for in a project. -/
def value (project : Project) : Piece → List Char
  | literal text _ => text
  | hole placeholder => placeholder.value project

/-- A piece with its value if it is a placeholder of some kinds, and as it is written if not. -/
def partValue (project : Project) (kinds : List Placeholder) : Piece → List Char
  | literal text _ => text
  | hole placeholder =>
    if placeholder ∈ kinds then placeholder.value project else placeholder.pattern

/-- A kind counts for its own holes only. -/
theorem partValue_cons_of_ne {project : Project} {kinds : List Placeholder}
    {placeholder : Placeholder} {piece : Piece} (differs : piece ≠ hole placeholder) :
    piece.partValue project (placeholder :: kinds) = piece.partValue project kinds := by
  cases piece with
  | literal text plain => rfl
  | hole other =>
    have otherKind : other ≠ placeholder := fun same => differs (congrArg hole same)
    simp only [partValue, List.mem_cons, otherKind, false_or]

end Piece

/-- A template as it is written. -/
def written (template : List Piece) : List Char :=
  template.flatMap Piece.spelling

/-- The texts of a template and the values of its placeholders, one after the other. -/
def meaning (project : Project) (template : List Piece) : List Char :=
  template.flatMap (Piece.value project)

/-- A template in which the placeholders of some kinds have their values, and the others are left
as they are written. -/
def filled (project : Project) (kinds : List Placeholder) (template : List Piece) : List Char :=
  template.flatMap (Piece.partValue project kinds)

/-- Put a piece into every hole of one kind. -/
def plug (placeholder : Placeholder) (filling : Piece) (template : List Piece) : List Piece :=
  template.map fun piece => if piece = .hole placeholder then filling else piece

section Replacing

variable (placeholder : Placeholder) (replacement : List Char)

/-- Where a piece begins, a replacement fills in that piece and goes on behind it. -/
theorem replace_spelling_append (piece : Piece) (rest : List Char) :
    Text.replace placeholder.pattern replacement (piece.spelling ++ rest) =
      (if piece = .hole placeholder then replacement else piece.spelling) ++
        Text.replace placeholder.pattern replacement rest := by
  obtain ⟨label, isPattern, _⟩ := placeholder.exists_pattern_eq
  by_cases isHole : piece = .hole placeholder
  · rw [if_pos isHole, isHole, Piece.spelling, isPattern, Text.replace_pattern_append]
  rw [if_neg isHole]
  cases piece with
  | literal text plain =>
    rw [Piece.spelling, isPattern, Text.replace_append_of_not_mem plain.1]
  | hole other =>
    obtain ⟨word, isWord, single⟩ := other.exists_pattern_eq
    have foreign : ¬ placeholder.pattern <+: other.pattern ++ rest :=
      Placeholder.not_prefix (fun same => isHole (congrArg Piece.hole same.symm)) rest
    rw [isPattern, isWord] at foreign
    rw [Piece.spelling, isPattern, isWord, Text.replace_cons_append single rest foreign]

/-- A replacement in a written template fills in the holes of one kind. -/
theorem replace_written (template : List Piece) :
    Text.replace placeholder.pattern replacement (written template) =
      template.flatMap fun piece =>
        if piece = .hole placeholder then replacement else piece.spelling := by
  induction template with
  | nil => simp [written, Text.replace]
  | cons piece rest inductionHypothesis =>
    have first : written (piece :: rest) = piece.spelling ++ written rest := List.flatMap_cons
    rw [first, replace_spelling_append, inductionHypothesis, List.flatMap_cons]

variable {placeholder}

/-- A placeholder that does not occur is not replaced. -/
theorem replace_written_of_absent {template : List Piece}
    (absent : .hole placeholder ∉ template) :
    Text.replace placeholder.pattern replacement (written template) = written template := by
  rw [replace_written]
  refine List.flatMap_congr fun piece member => if_neg fun isHole => ?_
  rw [isHole] at member
  exact absent member

/-- A text without braces is a piece of the template when it was put in. -/
theorem replace_written_of_plain (plain : Text.Plain replacement) (template : List Piece) :
    Text.replace placeholder.pattern replacement (written template) =
      written (plug placeholder (.literal replacement plain) template) := by
  rw [replace_written, written, plug, List.flatMap_map]
  refine List.flatMap_congr fun piece _ => ?_
  split <;> rfl

end Replacing

section Filling

variable {project : Project} {kinds : List Placeholder} {template : List Piece}

/-- If all kinds of holes are filled in, a template has its meaning. -/
theorem filled_eq_meaning (complete : ∀ placeholder, .hole placeholder ∈ template →
    placeholder ∈ kinds) : filled project kinds template = meaning project template := by
  refine List.flatMap_congr fun piece member => ?_
  cases piece with
  | literal text plain => rfl
  | hole placeholder => exact if_pos (complete placeholder member)

/-- To fill in a kind first is to put its value into the template. -/
theorem filled_plug (placeholder : Placeholder) (plain : Text.Plain (placeholder.value project)) :
    filled project kinds (plug placeholder (.literal _ plain) template) =
      filled project (placeholder :: kinds) template := by
  rw [filled, plug, List.flatMap_map]
  refine List.flatMap_congr fun piece _ => ?_
  split
  next isHole => rw [isHole, Piece.partValue, Piece.partValue, if_pos List.mem_cons_self]
  next differs => exact (Piece.partValue_cons_of_ne differs).symm

/-- A text that is put in brings no hole. -/
theorem hole_mem_of_mem_plug {placeholder other : Placeholder} {text : List Char}
    {plain : Text.Plain text} (member : .hole other ∈ plug placeholder (.literal text plain) template) :
    .hole other ∈ template := by
  obtain ⟨piece, listed, same⟩ := List.mem_map.mp member
  split at same
  · cases same
  · rwa [← same]

/-- Replacing some placeholders one after the other fills in their holes, if the values have no
braces.

The induction is on the replacements. Each of them leaves a written template, in which there is a
text instead of every hole of its kind, so the next replacement finds what it would have found
before, and nothing new. -/
theorem fill_written (plain : ∀ placeholder ∈ kinds, .hole placeholder ∈ template →
    Text.Plain (placeholder.value project)) :
    project.fill kinds (written template) = filled project kinds template := by
  induction kinds generalizing template with
  | nil => exact List.flatMap_congr fun piece _ => by cases piece <;> rfl
  | cons placeholder rest inductionHypothesis =>
    have first : project.fill (placeholder :: rest) (written template) = project.fill rest
        (Text.replace placeholder.pattern (placeholder.value project) (written template)) := rfl
    rw [first]
    by_cases present : .hole placeholder ∈ template
    · have valuePlain := plain placeholder List.mem_cons_self present
      rw [replace_written_of_plain _ valuePlain, inductionHypothesis, filled_plug]
      intro other listed member
      exact plain other (List.mem_cons_of_mem _ listed) (hole_mem_of_mem_plug member)
    · rw [replace_written_of_absent _ present, inductionHypothesis fun other listed =>
        plain other (List.mem_cons_of_mem _ listed)]
      refine List.flatMap_congr fun piece member => (Piece.partValue_cons_of_ne fun isHole => ?_).symm
      rw [isHole] at member
      exact present member

end Filling

section Plainness

variable {project : Project} {template : List Piece}

/-- A template of plain values has a plain meaning. -/
theorem plain_meaning (plain : ∀ placeholder, .hole placeholder ∈ template →
    Text.Plain (placeholder.value project)) : Text.Plain (meaning project template) := by
  have pieces : ∀ piece ∈ template, Text.Plain (piece.value project) := by
    intro piece member
    cases piece with
    | literal text textPlain => exact textPlain
    | hole placeholder => exact plain placeholder member
  simp only [Text.Plain, meaning, List.mem_flatMap, not_exists, not_and]
  exact ⟨fun piece member => (pieces piece member).1, fun piece member => (pieces piece member).2⟩

/-- A placeholder does not occur in a text without braces. -/
theorem not_infix_of_plain {text : List Char} (plain : Text.Plain text)
    (placeholder : Placeholder) : ¬ placeholder.pattern <:+: text := by
  obtain ⟨label, isPattern, _⟩ := placeholder.exists_pattern_eq
  intro occurs
  rw [isPattern] at occurs
  exact plain.1 (occurs.subset List.mem_cons_self)

end Plainness

/-- Filling in is simultaneous, in a project whose parts have no braces.

A well-formed template is resolved to its texts and the values of its placeholders, one after the
other. The order of the four replacements has no part in this. No placeholder is left or comes to
stand in the result, so resolving it once more leaves it as it is. -/
theorem resolution_is_simultaneous (project : Project)
    (plain : ∀ placeholder : Placeholder, Text.Plain (placeholder.value project))
    (template : List Piece) :
    let resolved := project.resolve (String.ofList (written template))
    resolved = String.ofList (meaning project template) ∧
    (∀ order : List Placeholder, order.Perm Placeholder.order →
      project.fill order (written template) = meaning project template) ∧
    (∀ placeholder : Placeholder, ¬ placeholder.pattern <:+: resolved.toList) ∧
    project.resolve resolved = resolved := by
  intro resolved
  have meant {order : List Placeholder} (complete : ∀ placeholder, placeholder ∈ order)
      (pieces : List Piece) : project.fill order (written pieces) = meaning project pieces := by
    rw [fill_written fun placeholder _ _ => plain placeholder,
      filled_eq_meaning fun placeholder _ => complete placeholder]
  have resolves : resolved = String.ofList (meaning project template) := by
    simp only [resolved, Project.resolve, String.toList_ofList, meant Placeholder.mem_order]
  have isPlain : Text.Plain (meaning project template) :=
    plain_meaning fun placeholder _ => plain placeholder
  refine ⟨resolves, ?_, ?_, ?_⟩
  · intro order isOrder
    exact meant (fun placeholder => isOrder.mem_iff.mpr placeholder.mem_order) template
  · intro placeholder
    rw [resolves, String.toList_ofList]
    exact not_infix_of_plain isPlain placeholder
  · -- The result is itself a template, of one text.
    have again := meant Placeholder.mem_order [.literal (meaning project template) isPlain]
    rw [resolves, Project.resolve, String.toList_ofList]
    exact congrArg String.ofList (by simpa [written, Piece.spelling, meaning, Piece.value] using again)

/-- The parts of a project are called like placeholders, one is empty, and the template has all
placeholders side by side. Filling in backwards gives the same. -/
theorem parts_called_like_placeholders_fill_in :
    let project : Project := { name := "mods", mods := "", game := "game", scripts := "name/scripts" }
    let template : List Piece := [.hole .name, .hole .scripts, .literal ['/'] (by decide), .hole .mods,
      .hole .game, .hole .name]
    (∀ placeholder : Placeholder, Text.Plain (placeholder.value project)) ∧
      String.ofList (written template) =
        "\x7bname\x7d\x7bscripts\x7d/\x7bmods\x7d\x7bgame\x7d\x7bname\x7d" ∧
      project.resolve (String.ofList (written template)) = "modsname/scripts/gamemods" ∧
      project.fill Placeholder.order.reverse (written template) =
        "modsname/scripts/gamemods".toList ∧
      project.resolve "modsname/scripts/gamemods" = "modsname/scripts/gamemods" := by
  intro project template
  have plain (placeholder : Placeholder) : Text.Plain (placeholder.value project) := by
    cases placeholder <;> decide +kernel
  have means : meaning project template = "modsname/scripts/gamemods".toList := by
    decide +kernel
  obtain ⟨resolves, anyOrder, -, again⟩ := resolution_is_simultaneous project plain template
  rw [means, String.ofList_toList] at resolves
  rw [resolves] at again
  refine ⟨plain, by decide +kernel, resolves, ?_, again⟩
  rw [← means]
  exact anyOrder _ (List.reverse_perm _)

end Template
end Papyrus
