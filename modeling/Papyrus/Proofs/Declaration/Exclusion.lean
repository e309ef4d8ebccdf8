import Papyrus.Proofs.Declaration.Classifiers

/-!
# Readers that exclude each other

Keywords may be names and types, so a line can begin in the same way for several readers. What
they look for falls into two shapes: a keyword with a call behind it, and a keyword with a type in
front of it and a word behind it. A line of the one shape is never of the other, and within a
shape the line has one keyword only. Functions, events and properties are told apart by this, and
the order in which they are tried does not matter.

Scripts are another matter. Anything may stand behind the name of a script, so that the rest of a
script line can make it a function or a property too. It cannot make it an event, which would have
to begin with another keyword.
-/
namespace Papyrus.Declaration

open Text

section Shapes

/-- A line that has a keyword and a call behind it. -/
def IsCalled (spelling : String) (line : List Char) : Prop :=
  ∃ rest name, afterKeyword? spelling.toList (trimStart line) = some rest ∧ callee? rest = some name

/-- A line that has a keyword between a type and a word. -/
def IsTyped (spelling : String) (line : List Char) : Prop :=
  ∃ type rest, typedKeyword? spelling.toList (trimStart line) = some (type, rest) ∧ rest ∈ wordLed

variable {spelling other : String} {line : List Char}

/-- A text begins with one keyword at most. -/
theorem toLower_eq_of_afterKeyword? {text rest behind : List Char}
    (one : afterKeyword? spelling.toList text = some rest)
    (another : afterKeyword? other.toList text = some behind) :
    spelling.toList.map Char.toLower = other.toList.map Char.toLower := by
  obtain ⟨word, _, read, spelled, _⟩ := (afterKeyword?_eq_some_iff _ _ _).mp one
  obtain ⟨again, _, readAgain, spelledAgain, _⟩ := (afterKeyword?_eq_some_iff _ _ _).mp another
  obtain ⟨rfl, _⟩ := Prod.mk.inj (Option.some.inj (read.symm.trans readAgain))
  exact (eq_of_beq spelled).symm.trans (eq_of_beq spelledAgain)

/-- A call has one keyword in front of it. -/
theorem IsCalled.toLower_eq (one : IsCalled spelling line) (another : IsCalled other line) :
    spelling.toList.map Char.toLower = other.toList.map Char.toLower := by
  obtain ⟨_, _, passed, _⟩ := one
  obtain ⟨_, _, passedAgain, _⟩ := another
  exact toLower_eq_of_afterKeyword? passed passedAgain

/-- A type has one keyword behind it. -/
theorem IsTyped.toLower_eq (one : IsTyped spelling line) (another : IsTyped other line) :
    spelling.toList.map Char.toLower = other.toList.map Char.toLower := by
  obtain ⟨type, rest, read, _⟩ := one
  obtain ⟨typeAgain, restAgain, readAgain, _⟩ := another
  simp only [typedKeyword?, Option.bind_eq_bind, Option.bind_eq_some_iff] at read readAgain
  obtain ⟨⟨_, behind⟩, typed, gap, spaced, _, passed, _⟩ := read
  obtain ⟨⟨_, behindAgain⟩, typedAgain, gapAgain, spacedAgain, _, passedAgain, _⟩ := readAgain
  obtain ⟨_, rfl⟩ := Prod.mk.inj (Option.some.inj (typed.symm.trans typedAgain))
  obtain rfl := Option.some.inj (spaced.symm.trans spacedAgain)
  exact toLower_eq_of_afterKeyword? passed passedAgain

/-- No line has both shapes, whatever the keywords are. -/
theorem IsCalled.not_isTyped (called : IsCalled spelling line) : ¬ IsTyped other line := by
  obtain ⟨_, _, passed, isCall⟩ := called
  rintro ⟨_, _, read, led⟩
  exact not_mem_wordLed_of_callee? passed isCall read led

end Shapes

section Readers

variable {line : List Char} {declaration : Declaration}

/-- A function without a result is called behind its keyword. -/
theorem isCalled_of_procedure? (read : procedure? line = some declaration) :
    IsCalled "Function" line := by
  simp only [procedure?, Option.bind_eq_bind, Option.bind_eq_some_iff] at read
  obtain ⟨rest, passed, name, called, _⟩ := read
  exact ⟨rest, name, passed, called⟩

/-- A function with a result has a type in front of its keyword. -/
theorem isTyped_of_typedFunction? (read : typedFunction? line = some declaration) :
    IsTyped "Function" line := by
  simp only [typedFunction?, Option.bind_eq_bind, Option.bind_eq_some_iff] at read
  obtain ⟨⟨type, rest⟩, typed, name, called, _⟩ := read
  obtain ⟨_, readName, _⟩ := (callee?_eq_some_iff _ _).mp called
  exact ⟨type, rest, typed, mem_wordLed_of_word? readName⟩

/-- An event is called behind its keyword. -/
theorem isCalled_of_event? (read : event? line = some declaration) : IsCalled "Event" line := by
  simp only [event?, Option.bind_eq_bind, Option.bind_eq_some_iff] at read
  obtain ⟨rest, passed, name, called, _⟩ := read
  exact ⟨rest, name, passed, called⟩

/-- A property has a type in front of its keyword. -/
theorem isTyped_of_property? (read : property? line = some declaration) :
    IsTyped "Property" line := by
  simp only [property?, Option.bind_eq_bind, Option.bind_eq_some_iff] at read
  obtain ⟨⟨type, rest⟩, typed, ⟨name, _⟩, readName, _⟩ := read
  exact ⟨type, rest, typed, mem_wordLed_of_word? readName⟩

/-- A line that is read as a function has one of the two shapes. -/
theorem isCalled_or_isTyped_of_function? (read : function? line = some declaration) :
    IsCalled "Function" line ∨ IsTyped "Function" line :=
  (function?_eq_some_iff.mp read).imp isCalled_of_procedure? isTyped_of_typedFunction?

/-- What is read as a function is not read as an event. -/
theorem event?_eq_none_of_function? (read : function? line = some declaration) :
    event? line = none := by
  rw [Option.eq_none_iff_forall_ne_some]
  intro other readEvent
  have isEvent : IsCalled "Event" line := isCalled_of_event? readEvent
  rcases isCalled_or_isTyped_of_function? read with called | typed
  · exact absurd (called.toLower_eq isEvent) (by decide)
  · exact isEvent.not_isTyped typed

/-- What is read as a function or as an event is not read as a property. -/
theorem property?_eq_none (read : function? line = some declaration ∨
    event? line = some declaration) : property? line = none := by
  rw [Option.eq_none_iff_forall_ne_some]
  intro other readProperty
  have isProperty : IsTyped "Property" line := isTyped_of_property? readProperty
  rcases read with readFunction | readEvent
  · rcases isCalled_or_isTyped_of_function? readFunction with called | typed
    · exact called.not_isTyped isProperty
    · exact absurd (typed.toLower_eq isProperty) (by decide)
  · exact (isCalled_of_event? readEvent).not_isTyped isProperty

/-- What is read as a script is not read as an event. -/
theorem event?_eq_none_of_script? (read : script? line = some declaration) :
    event? line = none := by
  rw [Option.eq_none_iff_forall_ne_some]
  intro other readEvent
  simp only [script?, Option.bind_eq_bind, Option.bind_eq_some_iff] at read
  obtain ⟨_, passed, _⟩ := read
  obtain ⟨_, _, passedEvent, _⟩ := isCalled_of_event? readEvent
  exact absurd (toLower_eq_of_afterKeyword? passed passedEvent) (by decide)

end Readers

section Order

/-- Two readers of which one at least gives nothing for a line. -/
def Exclude (line : List Char) (one other : List Char → Option Declaration) : Prop :=
  one line = none ∨ other line = none

variable {line : List Char}

/-- Exclusion goes both ways. -/
theorem Exclude.symm {one other : List Char → Option Declaration}
    (exclude : Exclude line one other) : Exclude line other one :=
  Or.symm exclude

/-- Two readers exclude each other if the other gives nothing where the one reads something. -/
theorem exclude_of_forall {one other : List Char → Option Declaration}
    (silent : ∀ declaration, one line = some declaration → other line = none) :
    Exclude line one other := by
  cases read : one line with
  | none => exact .inl read
  | some declaration => exact .inr (silent declaration read)

/-- The first answer of readers that exclude each other does not depend on their order. -/
theorem findSome?_eq_of_perm {readers others : List (List Char → Option Declaration)}
    (reordered : readers.Perm others) (exclusive : readers.Pairwise (Exclude line)) :
    readers.findSome? (fun read => read line) = others.findSome? (fun read => read line) := by
  induction reordered with
  | nil => rfl
  | cons reader _ inductionHypothesis =>
    rw [List.findSome?_cons, List.findSome?_cons,
      inductionHypothesis (List.pairwise_cons.mp exclusive).2]
  | swap one other rest =>
    -- One of the two gives nothing, so it may as well be asked later.
    have apart : Exclude line other one := (List.pairwise_cons.mp exclusive).1 one (by simp)
    rcases apart with silent | silent <;> simp [List.findSome?_cons, silent]
  | trans first _ one another =>
    have kept := (first.pairwise_iff Exclude.symm).mp exclusive
    exact (one exclusive).trans (another kept)

/-- What a line declares is the first answer that the readers give. -/
theorem ofLine?_eq_findSome? (line : List Char) : ofLine? line =
    [script?, function?, event?, property?].findSome? (fun read => read line) := by
  simp only [ofLine?, List.findSome?_cons, List.findSome?_nil]
  cases script? line <;> cases function? line <;> cases event? line <;> cases property? line <;> rfl

end Order

/-- The order in which functions, events and properties are looked for is free.

At most one of the three readers gives something for a line, no line is both a script and an
event, and no function is read both with and without a result. So the answer is the same for
every order of the three, as long as scripts are looked for first. -/
theorem order_of_readers_is_free (line : List Char) :
    ([function?, event?, property?].Pairwise fun one other =>
      one line = none ∨ other line = none) ∧
    (script? line = none ∨ event? line = none) ∧
    (procedure? line = none ∨ typedFunction? line = none) ∧
    ∀ order : List (List Char → Option Declaration), order.Perm [function?, event?, property?] →
      (script? :: order).findSome? (fun read => read line) = ofLine? line := by
  have exclusive : [function?, event?, property?].Pairwise (Exclude line) := by
    have functionOrEvent : Exclude line function? event? :=
      exclude_of_forall fun _ => event?_eq_none_of_function?
    have functionOrProperty : Exclude line function? property? :=
      exclude_of_forall fun _ read => property?_eq_none (.inl read)
    have eventOrProperty : Exclude line event? property? :=
      exclude_of_forall fun _ read => property?_eq_none (.inr read)
    simp [functionOrEvent, functionOrProperty, eventOrProperty]
  refine ⟨exclusive, ?_, ?_, ?_⟩
  · exact exclude_of_forall fun _ => event?_eq_none_of_script?
  · exact (exclude_of_forall fun _ => procedure?_eq_none).symm
  · intro order reordered
    rw [ofLine?_eq_findSome?, List.findSome?_cons, List.findSome?_cons,
      findSome?_eq_of_perm reordered.symm exclusive]

/-- A script line that could be a property, and a function that is named like a keyword and has
another one for its type, with the three readers in reverse order. -/
theorem readers_in_reverse_order :
    let order := [property?, event?, function?]
    let first (line : String) := (script? :: order).findSome? (fun read => read line.toList)
    property? "ScriptName Property P".toList = some (.property "P" "ScriptName") ∧
      first "ScriptName Property P" = some (.script "Property" none) ∧
      first "Event Function Property (" = some (.function "Property" (some "Event")) := by
  intro order first
  have reordered : order.Perm [function?, event?, property?] :=
    List.reverse_perm [function?, event?, property?]
  have given (line : String) : first line = ofLine? line.toList :=
    (order_of_readers_is_free line.toList).2.2.2 order reordered
  refine ⟨by decide, ?_, ?_⟩
  · rw [given]
    decide
  · rw [given]
    decide

end Papyrus.Declaration
