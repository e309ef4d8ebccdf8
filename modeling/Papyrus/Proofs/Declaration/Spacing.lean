import Papyrus.Proofs.Declaration.Classifiers

/-!
# Blanks around a declaration

What a line declares is told by the languages it is in, so it is enough to see that blanks at the
ends of a line put it into no language and take it out of none. In front of a line this is plain:
every language begins with any number of blanks.

Behind a line it rests on how the languages end. A call ends with a parenthesis and anything after
it, the other shapes end with a name and a text that does not go on with it. In both cases blanks
may be added and taken away. The parts in front ask for blanks of their own, but never for the
last ones of a line, because something else has to follow.
-/
namespace Papyrus

namespace Text

/-- Trimming at the end takes blanks away and nothing else. -/
theorem exists_eq_trimEnd_append (text : List Char) :
    ∃ tail, (∀ c ∈ tail, isBlank c) ∧ text = trimEnd text ++ tail :=
  ⟨text.rtakeWhile isBlank, fun _ member => List.mem_rtakeWhile_imp member,
    List.rdropWhile_append_rtakeWhile.symm⟩

/-- What does not start with a blank does not start with one when it is trimmed at the end. -/
theorem trimStart_trimEnd_trimStart (text : List Char) :
    trimStart (trimEnd (trimStart text)) = trimEnd (trimStart text) := by
  obtain ⟨tail, _, whole⟩ := exists_eq_trimEnd_append (trimStart text)
  cases trimmed : trimEnd (trimStart text) with
  | nil => rfl
  | cons first rest =>
    have solid := List.head?_dropWhile_not isBlank text
    rw [← trimStart, whole, trimmed] at solid
    simpa [trimStart] using solid

/-- A trimmed text has nothing to trim. -/
theorem trim_trim (text : List Char) : trim (trim text) = trim text := by
  rw [trim, trim, trimStart_trimEnd_trimStart]
  exact List.rdropWhile_idempotent isBlank (trimStart text)

end Text

namespace Declaration

open Text

section Ends

/-- A language in which blanks at the end of a text have no part. -/
def IgnoresTail (language : Language Char) : Prop :=
  ∀ text, ∀ tail ∈ blanks, text ++ tail ∈ language ↔ text ∈ language

/-- A language in which blanks at the end of a text have no part, and which asks for more than
blanks. -/
structure EndsSolid (language : Language Char) : Prop where
  nil_not_mem : [] ∉ language
  ignoresTail : IgnoresTail language

variable {first last : Language Char}

/-- The last part of a shape decides about the blanks at the end, as long as the part in front
keeps away from them: it may end with a blank only if something else has to follow. -/
theorem IgnoresTail.mul (ignores : IgnoresTail last)
    (apart : ∀ text, ∀ beyond ∈ gap, text ++ beyond ∈ first → [] ∉ last) :
    IgnoresTail (first * last) := by
  intro text tail isTail
  constructor
  · rintro ⟨front, isFirst, back, isLast, whole⟩
    rcases List.append_eq_append_iff.mp whole with ⟨beyond, rfl, rfl⟩ | ⟨beyond, rfl, rfl⟩
    · -- The part in front ends within the text, so the blanks belong to the last part.
      exact ⟨front, isFirst, beyond, (ignores beyond tail isTail).mp isLast, rfl⟩
    · -- What is left for the last part are blanks alone, so that it may as well be empty.
      have isBeyond : beyond ∈ blanks := fun c member => isTail c (List.mem_append_left back member)
      have isBack : back ∈ blanks := fun c member => isTail c (List.mem_append_right beyond member)
      have empty : [] ∈ last := (ignores [] back isBack).mp isLast
      by_cases none : beyond = []
      · subst none
        exact ⟨text, by simpa using isFirst, [], empty, by simp⟩
      · exact absurd empty (apart text beyond ⟨none, isBeyond⟩ isFirst)
  · rintro ⟨front, isFirst, back, isLast, rfl⟩
    exact ⟨front, isFirst, back ++ tail, (ignores back tail isTail).mpr isLast, by simp⟩

/-- Any part may stand in front of one that asks for more than blanks. -/
theorem EndsSolid.mul (first : Language Char) (ends : EndsSolid last) :
    EndsSolid (first * last) where
  nil_not_mem := by
    rintro ⟨front, _, back, isLast, whole⟩
    obtain ⟨_, rfl⟩ := List.append_eq_nil_iff.mp whole
    exact ends.nil_not_mem isLast
  ignoresTail := ends.ignoresTail.mul fun _ _ _ _ => ends.nil_not_mem

/-- A name may stand in front of any part, because it never ends with a blank. -/
theorem IgnoresTail.identifier_mul (name : String) (ignores : IgnoresTail last) :
    EndsSolid (identifier name * last) where
  nil_not_mem := by
    intro empty
    obtain ⟨c, isHead, _⟩ := mem_wordLed_of_identifier empty
    exact absurd isHead (by simp)
  ignoresTail := by
    refine ignores.mul ?_
    rintro text beyond ⟨nonempty, allBlank⟩ ⟨_, _, inside⟩
    obtain ⟨c, tail, rfl⟩ := List.exists_cons_of_ne_nil nonempty
    have inWord : isWord c := (isWord_iff c).mpr (inside c (by simp))
    have blank : isBlank c := allBlank c List.mem_cons_self
    exact absurd ((isBlank_of_isWord inWord).symm.trans blank) Bool.false_ne_true

/-- A blank ends a name as well as the end of the text does. -/
theorem ignoresTail_boundary : IgnoresTail boundary := by
  intro text tail isTail
  cases text with
  | cons c rest => rfl
  | nil =>
    refine iff_of_true ?_ fun c isHead => absurd isHead (by simp)
    intro c isHead inIdentifier
    have inWord : isWord c := (isWord_iff c).mpr inIdentifier
    have blank : isBlank c := isTail c (List.mem_of_mem_head? isHead)
    exact Bool.false_ne_true ((isBlank_of_isWord inWord).symm.trans blank)

/-- A parenthesis is not a blank, so it is not among those at the end. -/
theorem endsSolid_parenthesis : EndsSolid ({['(']} * ⊤) where
  nil_not_mem := by
    rw [← head?_eq_parenthesis_iff]
    simp
  ignoresTail := by
    intro text tail isTail
    rw [← head?_eq_parenthesis_iff, ← head?_eq_parenthesis_iff]
    cases text with
    | cons c rest => rfl
    | nil =>
      refine iff_of_false ?_ (by simp)
      intro opens
      exact absurd (isTail '(' (List.mem_of_mem_head? opens)) (by decide)

/-- Blanks behind a call have no part in it, because a parenthesis stands in front of them. -/
theorem endsSolid_call (name : String) : EndsSolid (call name) := by
  rw [call, mul_assoc, mul_assoc]
  exact (endsSolid_parenthesis.mul blanks).ignoresTail.identifier_mul name

/-- Blanks behind a parent have no part in it: they end its name as well as the line does. -/
theorem endsSolid_extending (parent : String) : EndsSolid (extending parent) := by
  simp only [extending, mul_assoc]
  exact (((ignoresTail_boundary.identifier_mul parent).mul gap).mul (keyword "extends")).mul gap

/-- Blanks at the end neither give a script a parent nor take one away. -/
theorem ignoresTail_heritage (parent : Option String) : IgnoresTail (heritage parent) := by
  cases parent with
  | some parent => exact (endsSolid_extending parent).ignoresTail
  | none =>
    intro text tail isTail
    refine and_congr (ignoresTail_boundary text tail isTail) (forall_congr' fun parent => ?_)
    exact not_congr ((endsSolid_extending parent).ignoresTail text tail isTail)

end Ends

section Lines

/-- Every language of a declaration begins with blanks, which a word follows, and blanks at the
end have no part in it. -/
theorem exists_grammar_eq (declaration : Declaration) : ∃ follows : Language Char,
    grammar declaration = blanks * follows ∧ (∀ rest ∈ follows, rest ∈ wordLed) ∧
      EndsSolid follows := by
  cases declaration with
  | script name parent =>
    refine ⟨keyword "ScriptName" * gap * (identifier name * heritage parent),
      by simp only [grammar, mul_assoc], fun _ => mem_wordLed_of_keyword, ?_⟩
    rw [mul_assoc]
    exact (((ignoresTail_heritage parent).identifier_mul name).mul gap).mul _
  | function name result =>
    cases result with
    | none =>
      refine ⟨keyword "Function" * gap * call name, by simp only [grammar, mul_assoc],
        fun _ => mem_wordLed_of_keyword, (endsSolid_call name).mul _⟩
    | some type =>
      refine ⟨typeName type * (gap * keyword "Function" * gap * call name),
        by simp only [grammar, mul_assoc], fun _ => mem_wordLed_of_typeName, ?_⟩
      exact ((endsSolid_call name).mul _).mul _
  | event name =>
    refine ⟨keyword "Event" * gap * call name, by simp only [grammar, mul_assoc],
      fun _ => mem_wordLed_of_keyword, (endsSolid_call name).mul _⟩
  | property name type =>
    refine ⟨typeName type * (gap * keyword "Property" * gap * (identifier name * boundary)),
      by simp only [grammar, mul_assoc], fun _ => mem_wordLed_of_typeName, ?_⟩
    exact ((ignoresTail_boundary.identifier_mul name).mul _).mul _

/-- A line declares something if it does so without the blanks around it, and only then. -/
theorem trim_mem_grammar_iff (line : List Char) (declaration : Declaration) :
    trim line ∈ grammar declaration ↔ line ∈ grammar declaration := by
  obtain ⟨follows, isGrammar, led, ends⟩ := exists_grammar_eq declaration
  have solid (rest : List Char) (isRest : rest ∈ follows) : ∀ c ∈ rest.head?, ¬ isBlank c :=
    not_isBlank_of_mem_wordLed (led rest isRest)
  obtain ⟨tail, isTail, whole⟩ := exists_eq_trimEnd_append (trimStart line)
  rw [isGrammar, ← trimStart_mem_iff solid, ← trimStart_mem_iff solid, trim,
    trimStart_trimEnd_trimStart]
  nth_rewrite 2 [whole]
  exact (ends.ignoresTail _ tail isTail).symm

/-- A reader that follows the grammar: what it reads from some line, it reads from every line of the
language and from no other. -/
def FollowsGrammar (read : List Char → Option Declaration) : Prop :=
  ∀ line declaration, read line = some declaration →
    ∀ other, read other = some declaration ↔ other ∈ grammar declaration

/-- A reader that follows the grammar reads the same without the blanks around a line. -/
theorem FollowsGrammar.read_trim {read : List Char → Option Declaration}
    (follows : FollowsGrammar read) (line : List Char) : read (trim line) = read line := by
  ext declaration
  constructor
  · intro trimmed
    have written := follows _ _ trimmed
    rwa [written, ← trim_mem_grammar_iff, ← written]
  · intro whole
    have written := follows _ _ whole
    rwa [written, trim_mem_grammar_iff, ← written]

/-- Scripts are read without the blanks around a line. -/
theorem script?_trim (line : List Char) : script? (trim line) = script? line := by
  refine FollowsGrammar.read_trim ?_ line
  intro line declaration read
  obtain ⟨name, parent, rfl⟩ := eq_of_script? read
  exact fun other => script?_eq_some_iff other name parent

/-- Functions are read without the blanks around a line. -/
theorem function?_trim (line : List Char) : function? (trim line) = function? line := by
  have bare : procedure? (trim line) = procedure? line := by
    refine FollowsGrammar.read_trim ?_ line
    intro line declaration read
    obtain ⟨name, rfl⟩ := eq_of_procedure? read
    exact fun other => procedure?_eq_some_iff other name
  have typed : typedFunction? (trim line) = typedFunction? line := by
    refine FollowsGrammar.read_trim ?_ line
    intro line declaration read
    obtain ⟨name, type, rfl⟩ := eq_of_typedFunction? read
    exact fun other => typedFunction?_eq_some_iff other name type
  rw [function?, function?, bare, typed]

/-- Events are read without the blanks around a line. -/
theorem event?_trim (line : List Char) : event? (trim line) = event? line := by
  refine FollowsGrammar.read_trim ?_ line
  intro line declaration read
  obtain ⟨name, rfl⟩ := eq_of_event? read
  exact fun other => event?_eq_some_iff other name

/-- Properties are read without the blanks around a line. -/
theorem property?_trim (line : List Char) : property? (trim line) = property? line := by
  refine FollowsGrammar.read_trim ?_ line
  intro line declaration read
  obtain ⟨name, type, rfl⟩ := eq_of_property? read
  exact fun other => property?_eq_some_iff other name type

/-- A line declares the same without the blanks around it. -/
theorem ofLine?_trim (line : List Char) : ofLine? (trim line) = ofLine? line := by
  rw [ofLine?, ofLine?, script?_trim, function?_trim, event?_trim, property?_trim]

/-- A keyword that ends a line stays without what it asks for, whatever blanks follow. -/
example : ofLine? "ScriptName S extends \t".toList = some (.script "S" none) ∧
    ofLine? "Int Function ".toList = none := by
  decide

end Lines

end Declaration

end Papyrus
