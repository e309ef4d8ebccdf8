import Mathlib
import Papyrus.Symbol

/-!
# The grammar of declarations

Each declaration has a language: the lines that declare it. The languages are put together
from blanks, identifiers and keywords by concatenation, and say nothing of how a line is read.
A name that ends a shape is maximal because the text behind it may not go on with a character
of an identifier; in all other places the blank or the parenthesis that follows does this.

The readers go from left to right and never come back. That they find every line of a language
rests on one fact: no blank is a character of an identifier, so the place where a run ends is
told by the next character alone.
-/
namespace Papyrus.Declaration

open Text

section Grammar

/-- The characters of identifiers: ASCII letters, ASCII digits and the underscore. -/
def IsIdentifierChar (c : Char) : Prop :=
  ('A' ≤ c ∧ c ≤ 'Z') ∨ ('a' ≤ c ∧ c ≤ 'z') ∨ ('0' ≤ c ∧ c ≤ '9') ∨ c = '_'

/-- A run of characters of identifiers that is not empty. -/
def IsIdentifier (word : List Char) : Prop :=
  word ≠ [] ∧ ∀ c ∈ word, IsIdentifierChar c

/-- Any number of blanks. -/
def blanks : Language Char := {text | ∀ c ∈ text, isBlank c}

/-- One blank or more. -/
def gap : Language Char := {text | text ≠ [] ∧ ∀ c ∈ text, isBlank c}

/-- The texts that do not go on with an identifier. -/
def boundary : Language Char := {text | ∀ c ∈ text.head?, ¬ IsIdentifierChar c}

/-- A keyword: an identifier that is spelled like it, in any letter case. -/
def keyword (spelling : String) : Language Char :=
  {word | IsIdentifier word ∧ word.map Char.toLower = spelling.toList.map Char.toLower}

/-- A given identifier, as it stands. -/
def identifier (name : String) : Language Char :=
  {word | word = name.toList ∧ IsIdentifier word}

/-- A given type, as it stands: an identifier, with or without `[]` directly behind it. -/
def typeName (type : String) : Language Char :=
  {word | word = type.toList ∧
    (IsIdentifier word ∨ ∃ element, IsIdentifier element ∧ word = element ++ ['[', ']'])}

/-- A given name in front of an opening parenthesis. -/
def call (name : String) : Language Char :=
  identifier name * blanks * {['(']} * ⊤

/-- What stands behind the name of a script that extends a given one. -/
def extending (parent : String) : Language Char :=
  gap * keyword "extends" * gap * identifier parent * boundary

/-- What stands behind the name of a script with the given parent, if it has one. -/
def heritage : Option String → Language Char
  | some parent => extending parent
  | none => {rest | rest ∈ boundary ∧ ∀ parent, rest ∉ extending parent}

/-- The lines that declare something. -/
def grammar : Declaration → Language Char
  | .script name parent =>
    blanks * keyword "ScriptName" * gap * identifier name * heritage parent
  | .function name none => blanks * keyword "Function" * gap * call name
  | .function name (some type) =>
    blanks * typeName type * gap * keyword "Function" * gap * call name
  | .event name => blanks * keyword "Event" * gap * call name
  | .property name type =>
    blanks * typeName type * gap * keyword "Property" * gap * identifier name * boundary

end Grammar

section Characters

/-- The characters that a word is read from are those of identifiers. -/
theorem isWord_iff (c : Char) : isWord c ↔ IsIdentifierChar c := by
  simp only [isWord, Char.isAlphanum, Char.isAlpha, Char.isUpper, Char.isLower, Char.isDigit,
    Bool.or_eq_true, Bool.and_eq_true, decide_eq_true_eq, beq_iff_eq, IsIdentifierChar, ge_iff_le,
    Char.le_def]
  tauto

/-- No blank is a character of an identifier. -/
theorem isBlank_of_isWord {c : Char} (inWord : isWord c) : isBlank c = false := by
  simp only [isWord, Char.isAlphanum, Char.isAlpha, Char.isUpper, Char.isLower, Char.isDigit,
    Bool.or_eq_true, Bool.and_eq_true, decide_eq_true_eq, beq_iff_eq, UInt32.le_iff_toNat_le,
    ge_iff_le] at inWord
  rcases inWord with ((upper | lower) | digit) | rfl
  · change 65 ≤ c.toNat ∧ c.toNat ≤ 90 at upper
    simp [isBlank]
    omega
  · change 97 ≤ c.toNat ∧ c.toNat ≤ 122 at lower
    simp [isBlank]
    omega
  · change 48 ≤ c.toNat ∧ c.toNat ≤ 57 at digit
    simp [isBlank]
    omega
  · decide

/-- A text is cut in two where a run of characters of some class ends. -/
theorem span_iff (inClass : Char → Bool) (text run rest : List Char) :
    (text.takeWhile inClass = run ∧ text.dropWhile inClass = rest) ↔
      run ++ rest = text ∧ (∀ c ∈ run, inClass c) ∧ ∀ c ∈ rest.head?, ¬ inClass c := by
  constructor
  · rintro ⟨rfl, rfl⟩
    refine ⟨List.takeWhile_append_dropWhile, fun c member => List.mem_takeWhile_imp member, ?_⟩
    intro c first
    have stopped := List.head?_dropWhile_not inClass text
    rw [Option.mem_def.mp first] at stopped
    simpa using stopped
  · rintro ⟨rfl, inside, stops⟩
    rw [List.takeWhile_append_of_pos inside, List.dropWhile_append_of_pos inside]
    cases rest with
    | nil => simp
    | cons c rest => simp [stops c rfl]

end Characters

section Readers

/-- The texts that begin with an identifier. -/
def wordLed : Language Char := {text | ∃ c ∈ text.head?, isWord c}

/-- The characters of an identifier are those of a word. -/
theorem isIdentifier_iff (word : List Char) :
    IsIdentifier word ↔ word ≠ [] ∧ ∀ c ∈ word, isWord c := by
  simp only [IsIdentifier, isWord_iff]

/-- What begins with an identifier begins with a character of one. -/
theorem append_mem_wordLed {word : List Char} (isIdentifier : IsIdentifier word)
    (rest : List Char) : word ++ rest ∈ wordLed := by
  obtain ⟨nonempty, inside⟩ := (isIdentifier_iff word).mp isIdentifier
  obtain ⟨c, tail, rfl⟩ := List.exists_cons_of_ne_nil nonempty
  exact ⟨c, rfl, inside c List.mem_cons_self⟩

/-- A given identifier begins with one. -/
theorem mem_wordLed_of_identifier {follows : Language Char} {name : String} {text : List Char}
    (isWritten : text ∈ identifier name * follows) : text ∈ wordLed := by
  obtain ⟨word, ⟨_, isIdentifier⟩, rest, _, rfl⟩ := isWritten
  exact append_mem_wordLed isIdentifier rest

/-- A call begins with an identifier. -/
theorem mem_wordLed_of_call {name : String} {text : List Char} (isCall : text ∈ call name) :
    text ∈ wordLed := by
  rw [call, mul_assoc, mul_assoc] at isCall
  exact mem_wordLed_of_identifier isCall

/-- A keyword begins with an identifier. -/
theorem mem_wordLed_of_keyword {follows : Language Char} {spelling : String} {text : List Char}
    (isWritten : text ∈ keyword spelling * gap * follows) : text ∈ wordLed := by
  rw [mul_assoc] at isWritten
  obtain ⟨word, ⟨isIdentifier, _⟩, rest, _, rfl⟩ := isWritten
  exact append_mem_wordLed isIdentifier rest

/-- A type begins with an identifier. -/
theorem mem_wordLed_of_typeName {follows : Language Char} {type : String} {text : List Char}
    (isWritten : text ∈ typeName type * follows) : text ∈ wordLed := by
  obtain ⟨_, ⟨rfl, isIdentifier | ⟨element, isIdentifier, spelled⟩⟩, rest, _, rfl⟩ := isWritten
  · exact append_mem_wordLed isIdentifier rest
  · change type.toList ++ rest ∈ wordLed
    rw [spelled, List.append_assoc]
    exact append_mem_wordLed isIdentifier _

/-- What begins with an identifier does not begin with a blank. -/
theorem not_isBlank_of_mem_wordLed {text : List Char} (led : text ∈ wordLed) :
    ∀ c ∈ text.head?, ¬ isBlank c := by
  obtain ⟨first, isFirst, inWord⟩ := led
  intro c isHead
  rw [Option.mem_unique isHead isFirst, isBlank_of_isWord inWord]
  exact Bool.false_ne_true

/-- A word is read where an identifier stands that ends there. -/
theorem word?_eq_some_iff (text word rest : List Char) :
    word? text = some (word, rest) ↔ word ++ rest = text ∧ IsIdentifier word ∧ rest ∈ boundary := by
  have read : word? text = some (word, rest) ↔
      word ≠ [] ∧ text.takeWhile isWord = word ∧ text.dropWhile isWord = rest := by
    rw [word?]
    cases taken : text.takeWhile isWord with
    | nil =>
      simp only [reduceCtorEq, false_iff]
      rintro ⟨nonempty, rfl, _⟩
      exact nonempty rfl
    | cons c tail =>
      simp only [Option.some.injEq, Prod.mk.injEq]
      constructor
      · rintro ⟨rfl, rfl⟩
        exact ⟨List.cons_ne_nil c tail, rfl, rfl⟩
      · rintro ⟨_, rfl, rfl⟩
        exact ⟨rfl, rfl⟩
  rw [read, span_iff]
  simp only [isWord_iff]
  constructor
  · rintro ⟨nonempty, whole, inside, ends⟩
    exact ⟨whole, ⟨nonempty, inside⟩, ends⟩
  · rintro ⟨whole, ⟨nonempty, inside⟩, ends⟩
    exact ⟨nonempty, whole, inside, ends⟩

/-- Blanks in front of a text are trimmed. -/
theorem trimStart_mem_iff {follows : Language Char}
    (solid : ∀ rest ∈ follows, ∀ c ∈ rest.head?, ¬ isBlank c) (text : List Char) :
    trimStart text ∈ follows ↔ text ∈ blanks * follows := by
  constructor
  · intro trimmed
    have cut := (span_iff isBlank text _ _).mp ⟨rfl, rfl⟩
    exact ⟨_, cut.2.1, _, trimmed, cut.1⟩
  · rintro ⟨indent, isIndent, rest, isRest, rfl⟩
    have cut := (span_iff isBlank _ indent rest).mpr ⟨rfl, isIndent, solid rest isRest⟩
    rwa [← cut.2] at isRest

/-- One blank or more in front of a text are passed over. -/
theorem exists_afterBlanks?_iff {follows : Language Char} (led : ∀ rest ∈ follows, rest ∈ wordLed)
    (text : List Char) : (∃ rest, afterBlanks? text = some rest ∧ rest ∈ follows) ↔
      text ∈ gap * follows := by
  constructor
  · rintro ⟨rest, passed, isRest⟩
    obtain ⟨rfl, shorter⟩ := (afterBlanks?_eq_some_iff text rest).mp passed
    have cut := (span_iff isBlank text _ _).mp ⟨rfl, rfl⟩
    refine ⟨_, ⟨?_, cut.2.1⟩, _, isRest, cut.1⟩
    intro noBlank
    have whole := cut.1
    rw [noBlank, List.nil_append] at whole
    exact shorter whole
  · rintro ⟨blank, ⟨nonempty, isBlank⟩, rest, isRest, rfl⟩
    have cut := (span_iff Text.isBlank _ blank rest).mpr
      ⟨rfl, isBlank, not_isBlank_of_mem_wordLed (led rest isRest)⟩
    refine ⟨rest, (afterBlanks?_eq_some_iff _ _).mpr ⟨cut.2, ?_⟩, isRest⟩
    intro unchanged
    exact nonempty (List.self_eq_append_left.mp (cut.2.symm.trans unchanged))

/-- An identifier ends where a blank follows. -/
theorem mem_boundary_of_mem_gap_mul {follows : Language Char} {text : List Char}
    (isGap : text ∈ gap * follows) : text ∈ boundary := by
  obtain ⟨blank, ⟨nonempty, allBlank⟩, rest, _, rfl⟩ := isGap
  obtain ⟨first, tail, rfl⟩ := List.exists_cons_of_ne_nil nonempty
  intro c isHead inIdentifier
  obtain rfl : first = c := Option.some.inj isHead
  have isBlank := allBlank first List.mem_cons_self
  rw [isBlank_of_isWord ((isWord_iff first).mpr inIdentifier)] at isBlank
  exact Bool.false_ne_true isBlank

/-- A given identifier is read if what follows ends it. -/
theorem exists_word?_iff {follows : Language Char} (ends : ∀ rest ∈ follows, rest ∈ boundary)
    (name : String) (text : List Char) :
    (∃ rest, word? text = some (name.toList, rest) ∧ rest ∈ follows) ↔
      text ∈ identifier name * follows := by
  constructor
  · rintro ⟨rest, read, isRest⟩
    obtain ⟨whole, isIdentifier, _⟩ := (word?_eq_some_iff _ _ _).mp read
    exact ⟨name.toList, ⟨rfl, isIdentifier⟩, rest, isRest, whole⟩
  · rintro ⟨_, ⟨rfl, isIdentifier⟩, rest, isRest, rfl⟩
    exact ⟨rest, (word?_eq_some_iff _ _ _).mpr ⟨rfl, isIdentifier, ends rest isRest⟩, isRest⟩

/-- A keyword is a word that is spelled like it and has a blank behind it. -/
theorem afterKeyword?_eq_some_iff (spelling text rest : List Char) :
    afterKeyword? spelling text = some rest ↔ ∃ word behind, word? text = some (word, behind) ∧
      sameLetters word spelling ∧ afterBlanks? behind = some rest := by
  unfold afterKeyword?
  cases word? text with
  | none => simp
  | some read =>
    obtain ⟨word, behind⟩ := read
    by_cases spelled : sameLetters word spelling <;> simp [spelled]

/-- A keyword is passed over with the blanks behind it. -/
theorem exists_afterKeyword?_iff {follows : Language Char} (led : ∀ rest ∈ follows, rest ∈ wordLed)
    (spelling : String) (text : List Char) :
    (∃ rest, afterKeyword? spelling.toList text = some rest ∧ rest ∈ follows) ↔
      text ∈ keyword spelling * gap * follows := by
  simp only [mul_assoc, afterKeyword?_eq_some_iff]
  constructor
  · rintro ⟨rest, ⟨word, behind, read, spelled, passed⟩, isRest⟩
    obtain ⟨whole, isIdentifier, _⟩ := (word?_eq_some_iff _ _ _).mp read
    have isGap := (exists_afterBlanks?_iff led behind).mp ⟨rest, passed, isRest⟩
    exact ⟨word, ⟨isIdentifier, eq_of_beq spelled⟩, behind, isGap, whole⟩
  · rintro ⟨word, ⟨isIdentifier, spelled⟩, behind, isGap, rfl⟩
    have read := (word?_eq_some_iff _ _ _).mpr
      ⟨rfl, isIdentifier, mem_boundary_of_mem_gap_mul isGap⟩
    obtain ⟨rest, passed, isRest⟩ := (exists_afterBlanks?_iff led behind).mpr isGap
    exact ⟨rest, ⟨word, behind, read, beq_of_eq spelled, passed⟩, isRest⟩

/-- A word that no brackets follow is a type. -/
theorem type?_of_word? {text word rest : List Char} (read : word? text = some (word, rest))
    (noArray : ∀ tail, rest ≠ '[' :: ']' :: tail) : type? text = some (word, rest) := by
  unfold type?
  split
  next element tail isElement =>
    rw [isElement, Option.some.injEq, Prod.mk.injEq] at read
    exact absurd read.2.symm (noArray tail)
  next => exact read

/-- A given type is read if a blank follows it. -/
theorem exists_type?_iff (follows : Language Char) (type : String) (text : List Char) :
    (∃ rest, type? text = some (type.toList, rest) ∧ rest ∈ gap * follows) ↔
      text ∈ typeName type * (gap * follows) := by
  constructor
  · rintro ⟨rest, read, isGap⟩
    unfold type? at read
    split at read
    next element behind isElement =>
      obtain ⟨whole, isIdentifier, _⟩ := (word?_eq_some_iff _ _ _).mp isElement
      simp only [Option.some.injEq, Prod.mk.injEq] at read
      obtain ⟨spelled, rfl⟩ := read
      refine ⟨type.toList, ⟨rfl, .inr ⟨element, isIdentifier, spelled.symm⟩⟩, behind, isGap, ?_⟩
      rw [← whole, ← spelled]
      simp
    next =>
      obtain ⟨whole, isIdentifier, _⟩ := (word?_eq_some_iff _ _ _).mp read
      exact ⟨type.toList, ⟨rfl, .inl isIdentifier⟩, rest, isGap, whole⟩
  · rintro ⟨_, ⟨rfl, isType⟩, rest, isGap, rfl⟩
    refine ⟨rest, ?_, isGap⟩
    rcases isType with isIdentifier | ⟨element, isIdentifier, spelled⟩
    · have read := (word?_eq_some_iff _ _ _).mpr
        ⟨rfl, isIdentifier, mem_boundary_of_mem_gap_mul isGap⟩
      obtain ⟨blank, ⟨nonempty, allBlank⟩, tail, _, rfl⟩ := isGap
      obtain ⟨first, others, rfl⟩ := List.exists_cons_of_ne_nil nonempty
      have noBracket : first ≠ '[' := by
        rintro rfl
        exact absurd (allBlank '[' List.mem_cons_self) (by decide)
      exact type?_of_word? read fun tail same => noBracket (List.cons.inj same).1
    · have read : word? (type.toList ++ rest) = some (element, '[' :: ']' :: rest) := by
        refine (word?_eq_some_iff _ _ _).mpr ⟨by rw [spelled]; simp, isIdentifier, ?_⟩
        intro c isHead
        obtain rfl : '[' = c := Option.some.inj isHead
        rw [← isWord_iff]
        decide
      rw [type?, read, spelled]
      rfl

/-- A given type is read with the keyword and the blanks behind it. -/
theorem exists_typedKeyword?_iff {follows : Language Char}
    (led : ∀ rest ∈ follows, rest ∈ wordLed) (spelling type : String) (text : List Char) :
    (∃ rest, typedKeyword? spelling.toList text = some (type.toList, rest) ∧ rest ∈ follows) ↔
      text ∈ typeName type * (gap * (keyword spelling * gap * follows)) := by
  rw [← exists_type?_iff]
  simp only [← exists_afterBlanks?_iff fun _ => mem_wordLed_of_keyword,
    ← exists_afterKeyword?_iff led]
  simp only [typedKeyword?, Option.bind_eq_bind, Option.bind_eq_some_iff, Option.pure_def]
  constructor
  · rintro ⟨rest, ⟨⟨word, behind⟩, read, after, passed, last, isLast, same⟩, isRest⟩
    obtain ⟨rfl, rfl⟩ := Prod.mk.inj (Option.some.inj same)
    exact ⟨behind, read, after, passed, last, isLast, isRest⟩
  · rintro ⟨behind, read, after, passed, rest, isLast, isRest⟩
    exact ⟨rest, ⟨(type.toList, behind), read, after, passed, rest, isLast, rfl⟩, isRest⟩

/-- A text begins with an opening parenthesis. -/
theorem head?_eq_parenthesis_iff (text : List Char) :
    text.head? = some '(' ↔ text ∈ ({['(']} * ⊤ : Language Char) := by
  constructor
  · intro opens
    obtain ⟨tail, rfl⟩ := List.head?_eq_some_iff.mp opens
    exact ⟨['('], rfl, tail, trivial, rfl⟩
  · rintro ⟨_, rfl, tail, _, rfl⟩
    rfl

/-- A name in front of an opening parenthesis is a word with blanks behind it. -/
theorem callee?_eq_some_iff (text name : List Char) : callee? text = some name ↔
    ∃ behind, word? text = some (name, behind) ∧ (trimStart behind).head? = some '(' := by
  unfold callee?
  cases word? text with
  | none => simp
  | some read =>
    obtain ⟨word, behind⟩ := read
    by_cases opens : (trimStart behind).head? = some '(' <;> simp [opens]

/-- A given name is read in front of an opening parenthesis. -/
theorem callee?_iff (text : List Char) (name : String) :
    callee? text = some name.toList ↔ text ∈ call name := by
  have solid : ∀ rest ∈ ({['(']} * ⊤ : Language Char), ∀ c ∈ rest.head?, ¬ isBlank c := by
    intro rest opens c isHead
    rw [(head?_eq_parenthesis_iff rest).mpr opens] at isHead
    obtain rfl := Option.some.inj isHead
    decide
  have ends : ∀ rest ∈ blanks * ({['(']} * ⊤ : Language Char), rest ∈ boundary := by
    rintro _ ⟨blank, allBlank, rest, opens, rfl⟩
    rcases blank with _ | ⟨first, others⟩
    · intro c isHead
      change c ∈ rest.head? at isHead
      rw [(head?_eq_parenthesis_iff rest).mpr opens] at isHead
      obtain rfl := Option.some.inj isHead
      rw [← isWord_iff]
      decide
    · exact mem_boundary_of_mem_gap_mul
        ⟨first :: others, ⟨List.cons_ne_nil first others, allBlank⟩, rest, opens, rfl⟩
  rw [call, mul_assoc, mul_assoc, ← exists_word?_iff ends, callee?_eq_some_iff]
  simp only [← trimStart_mem_iff solid, ← head?_eq_parenthesis_iff]

end Readers

section Shapes

/-- A text is a name exactly if it has the characters of the name. -/
theorem ofList_eq_iff (text : List Char) (name : String) :
    String.ofList text = name ↔ text = name.toList := by
  rw [← String.toList_inj, String.toList_ofList]

/-- A word ends where it was read. -/
theorem boundary_of_word? {text word rest : List Char} (read : word? text = some (word, rest)) :
    rest ∈ boundary :=
  ((word?_eq_some_iff text word rest).mp read).2.2

/-- A word begins with a character of an identifier. -/
theorem mem_wordLed_of_word? {text word rest : List Char}
    (read : word? text = some (word, rest)) : text ∈ wordLed := by
  obtain ⟨rfl, isIdentifier, _⟩ := (word?_eq_some_iff text word rest).mp read
  exact append_mem_wordLed isIdentifier rest

/-- A given identifier is read where it ends. -/
theorem exists_word?_boundary_iff (name : String) (text : List Char) :
    (∃ rest, word? text = some (name.toList, rest)) ↔ text ∈ identifier name * boundary := by
  rw [← exists_word?_iff fun rest ends => ends]
  exact exists_congr fun rest => (and_iff_left_of_imp boundary_of_word?).symm

variable {follows : Language Char} (led : ∀ rest ∈ follows, rest ∈ wordLed) (spelling : String)
  (line : List Char)

include led

/-- The shape that begins with a keyword. -/
theorem exists_afterKeyword?_trimStart_iff :
    (∃ rest, afterKeyword? spelling.toList (trimStart line) = some rest ∧ rest ∈ follows) ↔
      line ∈ blanks * (keyword spelling * gap * follows) := by
  rw [exists_afterKeyword?_iff led, trimStart_mem_iff fun _ isRest =>
    not_isBlank_of_mem_wordLed (mem_wordLed_of_keyword isRest)]

/-- The shape that begins with a type and has its keyword behind it. -/
theorem exists_typedKeyword?_trimStart_iff (type : String) :
    (∃ rest, typedKeyword? spelling.toList (trimStart line) = some (type.toList, rest) ∧
      rest ∈ follows) ↔
      line ∈ blanks * (typeName type * (gap * (keyword spelling * gap * follows))) := by
  rw [exists_typedKeyword?_iff led, trimStart_mem_iff fun _ isRest =>
    not_isBlank_of_mem_wordLed (mem_wordLed_of_typeName isRest)]

end Shapes

end Papyrus.Declaration
