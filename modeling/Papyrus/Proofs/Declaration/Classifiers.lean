import Papyrus.Proofs.Declaration.Grammar

/-!
# What each line is read as

Every kind of declaration has its own reader, and each reader is exact: it accepts the lines in
the languages of its kind and no others, and gives the names, parents and types that stand
there. Whether a line is read as one kind does not depend on the other kinds.

Functions are read in two ways, without a result and then with one. The order of the two does
not matter, because no line can be read in both ways.
-/
namespace Papyrus.Declaration

open Text

section Classifiers

/-- A parent is read behind the name of a script that extends it. The blanks in front of the
keyword are trimmed without being asked for; there is one because the name has ended. -/
theorem parent?_eq_some_iff {text : List Char} (ends : text ∈ boundary) (parent : String) :
    parent? text = some parent.toList ↔ text ∈ extending parent := by
  have required : text ∈ blanks * (keyword "extends" * gap * (identifier parent * boundary)) ↔
      text ∈ gap * (keyword "extends" * gap * (identifier parent * boundary)) := by
    constructor
    · rintro ⟨blank, allBlank, rest, isRest, rfl⟩
      refine ⟨blank, ⟨?_, allBlank⟩, rest, isRest, rfl⟩
      rintro rfl
      obtain ⟨c, isHead, inWord⟩ := mem_wordLed_of_keyword isRest
      exact ends c isHead ((isWord_iff c).mp inWord)
    · rintro ⟨blank, ⟨_, allBlank⟩, rest, isRest, rfl⟩
      exact ⟨blank, allBlank, rest, isRest, rfl⟩
  have asOne : extending parent =
      gap * (keyword "extends" * gap * (identifier parent * boundary)) := by
    simp only [extending, mul_assoc]
  rw [asOne, ← required,
    ← exists_afterKeyword?_trimStart_iff fun _ => mem_wordLed_of_identifier]
  simp [← exists_word?_boundary_iff, parent?, Option.bind_eq_some_iff]

/-- What follows the name of a script tells its parent, if it has one. -/
theorem mem_heritage_iff (rest : List Char) (parent : Option String) :
    rest ∈ heritage parent ↔ rest ∈ boundary ∧ (parent? rest).map String.ofList = parent := by
  cases parent with
  | none =>
    refine and_congr_right fun ends => ?_
    simp only [← parent?_eq_some_iff ends, Option.map_eq_none_iff]
    constructor
    · intro unread
      rw [Option.eq_none_iff_forall_ne_some]
      intro parent read
      exact unread (String.ofList parent) (by rw [read, String.toList_ofList])
    · rintro none parent read
      rw [none] at read
      exact Option.some_ne_none _ read.symm
  | some parent =>
    have ends_of (extended : rest ∈ extending parent) : rest ∈ boundary := by
      rw [extending, mul_assoc, mul_assoc, mul_assoc] at extended
      exact mem_boundary_of_mem_gap_mul extended
    change rest ∈ extending parent ↔ _
    rw [← and_iff_right_of_imp ends_of]
    refine and_congr_right fun ends => ?_
    simp [← parent?_eq_some_iff ends, ofList_eq_iff]

/-- A script declaration is read from the lines of its language. -/
theorem script?_eq_some_iff (line : List Char) (name : String) (parent : Option String) :
    script? line = some (.script name parent) ↔ line ∈ grammar (.script name parent) := by
  have asOne : grammar (.script name parent) =
      blanks * (keyword "ScriptName" * gap * (identifier name * heritage parent)) := by
    simp only [grammar, mul_assoc]
  have ends (rest : List Char) (follows : rest ∈ heritage parent) : rest ∈ boundary :=
    ((mem_heritage_iff rest parent).mp follows).1
  rw [asOne, ← exists_afterKeyword?_trimStart_iff fun _ => mem_wordLed_of_identifier]
  simp only [← exists_word?_iff ends, mem_heritage_iff, script?, Option.bind_eq_bind,
    Option.bind_eq_some_iff, Option.pure_def, Prod.exists, Option.some.injEq, script.injEq,
    ofList_eq_iff]
  refine exists_congr fun rest => and_congr_right fun _ => ?_
  constructor
  · rintro ⟨_, behind, read, rfl, isParent⟩
    exact ⟨behind, read, boundary_of_word? read, isParent⟩
  · rintro ⟨behind, read, _, isParent⟩
    exact ⟨_, behind, read, rfl, isParent⟩

/-- A keyword and a call behind it are what functions without a result and events share. -/
theorem exists_callee?_iff (spelling : String) (line : List Char) (name : String) :
    (∃ rest, afterKeyword? spelling.toList (trimStart line) = some rest ∧
      callee? rest = some name.toList) ↔ line ∈ blanks * keyword spelling * gap * call name := by
  rw [mul_assoc, mul_assoc, ← mul_assoc (keyword _),
    ← exists_afterKeyword?_trimStart_iff fun _ => mem_wordLed_of_call]
  simp only [callee?_iff]

/-- A function without a result is read from the lines of its language. -/
theorem procedure?_eq_some_iff (line : List Char) (name : String) :
    procedure? line = some (.function name none) ↔ line ∈ grammar (.function name none) := by
  rw [grammar, ← exists_callee?_iff]
  simp [procedure?, Option.bind_eq_some_iff, ofList_eq_iff]

/-- A function with a result is read from the lines of its language. -/
theorem typedFunction?_eq_some_iff (line : List Char) (name type : String) :
    typedFunction? line = some (.function name (some type)) ↔
      line ∈ grammar (.function name (some type)) := by
  have asOne : grammar (.function name (some type)) =
      blanks * (typeName type * (gap * (keyword "Function" * gap * call name))) := by
    simp only [grammar, mul_assoc]
  rw [asOne, ← exists_typedKeyword?_trimStart_iff fun _ => mem_wordLed_of_call]
  simp [typedFunction?, Option.bind_eq_some_iff, ofList_eq_iff, ← callee?_iff]

/-- An event is read from the lines of its language. -/
theorem event?_eq_some_iff (line : List Char) (name : String) :
    event? line = some (.event name) ↔ line ∈ grammar (.event name) := by
  rw [grammar, ← exists_callee?_iff]
  simp [event?, Option.bind_eq_some_iff, ofList_eq_iff]

/-- A property is read from the lines of its language. -/
theorem property?_eq_some_iff (line : List Char) (name type : String) :
    property? line = some (.property name type) ↔ line ∈ grammar (.property name type) := by
  have asOne : grammar (.property name type) = blanks * (typeName type * (gap *
      (keyword "Property" * gap * (identifier name * boundary)))) := by
    simp only [grammar, mul_assoc]
  rw [asOne, ← exists_typedKeyword?_trimStart_iff fun _ => mem_wordLed_of_identifier]
  simp [property?, Option.bind_eq_some_iff, ofList_eq_iff, ← exists_word?_boundary_iff]

end Classifiers

section Kinds

variable {line : List Char} {declaration : Declaration}

/-- Whatever is read as a script is one. -/
theorem eq_of_script? (read : script? line = some declaration) :
    ∃ name parent, declaration = .script name parent := by
  simp only [script?, Option.bind_eq_bind, Option.bind_eq_some_iff] at read
  obtain ⟨_, _, _, _, same⟩ := read
  exact ⟨_, _, (Option.some.inj same).symm⟩

/-- A function that is read without a type has no result. -/
theorem eq_of_procedure? (read : procedure? line = some declaration) :
    ∃ name, declaration = .function name none := by
  simp only [procedure?, Option.bind_eq_bind, Option.bind_eq_some_iff] at read
  obtain ⟨_, _, _, _, same⟩ := read
  exact ⟨_, (Option.some.inj same).symm⟩

/-- A function that is read with a type has a result. -/
theorem eq_of_typedFunction? (read : typedFunction? line = some declaration) :
    ∃ name type, declaration = .function name (some type) := by
  simp only [typedFunction?, Option.bind_eq_bind, Option.bind_eq_some_iff] at read
  obtain ⟨_, _, _, _, same⟩ := read
  exact ⟨_, _, (Option.some.inj same).symm⟩

/-- Whatever is read as an event is one. -/
theorem eq_of_event? (read : event? line = some declaration) :
    ∃ name, declaration = .event name := by
  simp only [event?, Option.bind_eq_bind, Option.bind_eq_some_iff] at read
  obtain ⟨_, _, _, _, same⟩ := read
  exact ⟨_, (Option.some.inj same).symm⟩

/-- Whatever is read as a property is one. -/
theorem eq_of_property? (read : property? line = some declaration) :
    ∃ name type, declaration = .property name type := by
  simp only [property?, Option.bind_eq_bind, Option.bind_eq_some_iff] at read
  obtain ⟨_, _, _, _, same⟩ := read
  exact ⟨_, _, (Option.some.inj same).symm⟩

/-- What is read as a keyword and a call is not read as a type, a keyword and a word. Where both
were read, the keyword behind the type would be the name that is called, so that a parenthesis
would stand where the word begins. -/
theorem not_mem_wordLed_of_callee? {spelling other text rest name type last : List Char}
    (passed : afterKeyword? spelling text = some rest) (called : callee? rest = some name)
    (read : typedKeyword? other text = some (type, last)) : last ∉ wordLed := by
  simp only [typedKeyword?, Option.bind_eq_bind, Option.bind_eq_some_iff] at read
  obtain ⟨⟨element, afterType⟩, typed, afterGap, spaced, ended, passedTyped, same⟩ := read
  obtain ⟨-, rfl⟩ := Prod.mk.inj (Option.some.inj same)
  obtain ⟨word, behind, readWord, _, blank⟩ := (afterKeyword?_eq_some_iff _ _ _).mp passed
  have noArray (tail : List Char) : behind ≠ '[' :: ']' :: tail := by
    rintro rfl
    have notBlank : isBlank '[' = false := by decide
    simp [afterBlanks?, notBlank] at blank
  -- The type is the keyword of the other reading, so both go on in the same place.
  rw [type?_of_word? readWord noArray, Option.some.injEq, Prod.mk.injEq] at typed
  rw [← typed.2, blank, Option.some.injEq] at spaced
  rw [← spaced] at passedTyped
  obtain ⟨second, behindSecond, readSecond, _, blankSecond⟩ :=
    (afterKeyword?_eq_some_iff _ _ _).mp passedTyped
  obtain ⟨behindName, readName, opens⟩ := (callee?_eq_some_iff _ _).mp called
  rw [readName, Option.some.injEq, Prod.mk.injEq] at readSecond
  rw [readSecond.2, ((afterBlanks?_eq_some_iff _ _).mp blankSecond).1] at opens
  rintro ⟨c, isHead, inWord⟩
  rw [opens] at isHead
  obtain rfl := Option.some.inj isHead
  exact absurd inWord (by decide)

/-- A function that is read with a type is not read without one. -/
theorem procedure?_eq_none (read : typedFunction? line = some declaration) :
    procedure? line = none := by
  rw [Option.eq_none_iff_forall_ne_some]
  intro other readBare
  simp only [procedure?, Option.bind_eq_bind, Option.bind_eq_some_iff] at readBare
  simp only [typedFunction?, Option.bind_eq_bind, Option.bind_eq_some_iff] at read
  obtain ⟨rest, passed, name, called, _⟩ := readBare
  obtain ⟨⟨type, last⟩, typed, typedName, typedCalled, _⟩ := read
  obtain ⟨_, readTyped, _⟩ := (callee?_eq_some_iff _ _).mp typedCalled
  exact not_mem_wordLed_of_callee? passed called typed (mem_wordLed_of_word? readTyped)

/-- A function is read in one of its two shapes, and in one only. -/
theorem function?_eq_some_iff : function? line = some declaration ↔
    procedure? line = some declaration ∨ typedFunction? line = some declaration := by
  unfold function?
  constructor
  · intro read
    cases bare : procedure? line with
    | none =>
      rw [bare] at read
      exact .inr read
    | some other =>
      rw [bare] at read
      exact .inl read
  · rintro (bare | typed)
    · rw [bare]
      rfl
    · rw [procedure?_eq_none typed]
      exact typed

/-- What is not read as a script declares no script. -/
theorem kind_ne_script (notScript : script? line = none)
    (read : ofLine? line = some declaration) : declaration.kind ≠ .script := by
  simp only [ofLine?, notScript, Option.orElse_eq_orElse, Option.orElse_eq_or, Option.none_or,
    Option.or_eq_some_iff, function?_eq_some_iff] at read
  rcases read with (bare | typed) | ⟨_, event | ⟨_, property⟩⟩
  · obtain ⟨name, rfl⟩ := eq_of_procedure? bare
    exact Symbol.Kind.noConfusion
  · obtain ⟨name, type, rfl⟩ := eq_of_typedFunction? typed
    exact Symbol.Kind.noConfusion
  · obtain ⟨name, rfl⟩ := eq_of_event? event
    exact Symbol.Kind.noConfusion
  · obtain ⟨name, type, rfl⟩ := eq_of_property? property
    exact Symbol.Kind.noConfusion

/-- A line that declares a script is read as a script. -/
theorem script?_of_ofLine? {name : String} {parent : Option String}
    (read : ofLine? line = some (.script name parent)) :
    script? line = some (.script name parent) := by
  cases script : script? line with
  | none => exact absurd rfl (kind_ne_script script read)
  | some other =>
    rw [ofLine?, script] at read
    exact read

end Kinds

/-- A line is read as a script, a function, an event or a property exactly if it is in the
language of such a declaration, and then as that one. A line that is in no language of the kind
gives nothing. -/
theorem classifiers_accept_their_grammar (line : List Char) (declaration : Declaration) :
    (script? line = some declaration ↔ declaration.kind = .script ∧ line ∈ grammar declaration) ∧
    (function? line = some declaration ↔
      declaration.kind = .function ∧ line ∈ grammar declaration) ∧
    (event? line = some declaration ↔ declaration.kind = .event ∧ line ∈ grammar declaration) ∧
    (property? line = some declaration ↔
      declaration.kind = .property ∧ line ∈ grammar declaration) := by
  refine ⟨⟨?_, ?_⟩, ⟨?_, ?_⟩, ⟨?_, ?_⟩, ⟨?_, ?_⟩⟩
  · intro read
    obtain ⟨name, parent, rfl⟩ := eq_of_script? read
    exact ⟨rfl, (script?_eq_some_iff line name parent).mp read⟩
  · rintro ⟨isScript, written⟩
    cases declaration with
    | script name parent => exact (script?_eq_some_iff line name parent).mpr written
    | _ => exact absurd isScript (by simp [kind])
  · intro read
    rcases function?_eq_some_iff.mp read with bare | typed
    · obtain ⟨name, rfl⟩ := eq_of_procedure? bare
      exact ⟨rfl, (procedure?_eq_some_iff line name).mp bare⟩
    · obtain ⟨name, type, rfl⟩ := eq_of_typedFunction? typed
      exact ⟨rfl, (typedFunction?_eq_some_iff line name type).mp typed⟩
  · rintro ⟨isFunction, written⟩
    cases declaration with
    | function name result =>
      cases result with
      | none =>
        exact function?_eq_some_iff.mpr (.inl ((procedure?_eq_some_iff line name).mpr written))
      | some type =>
        exact function?_eq_some_iff.mpr
          (.inr ((typedFunction?_eq_some_iff line name type).mpr written))
    | _ => exact absurd isFunction (by simp [kind])
  · intro read
    obtain ⟨name, rfl⟩ := eq_of_event? read
    exact ⟨rfl, (event?_eq_some_iff line name).mp read⟩
  · rintro ⟨isEvent, written⟩
    cases declaration with
    | event name => exact (event?_eq_some_iff line name).mpr written
    | _ => exact absurd isEvent (by simp [kind])
  · intro read
    obtain ⟨name, type, rfl⟩ := eq_of_property? read
    exact ⟨rfl, (property?_eq_some_iff line name type).mp read⟩
  · rintro ⟨isProperty, written⟩
    cases declaration with
    | property name type => exact (property?_eq_some_iff line name type).mpr written
    | _ => exact absurd isProperty (by simp [kind])

/-- A keyword may be a type and a name: this line declares a function. -/
example : function? "  Function[] FUNCTION Function (".toList =
    some (.function "Function" (some "Function[]")) := by
  decide

end Papyrus.Declaration
