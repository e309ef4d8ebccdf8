import Papyrus.Completion.Context
import Papyrus.Proofs.Declaration.Grammar

/-!
# Where members are asked for

A request asks for the members of a script exactly where its position stands behind an identifier
and a dot. The identifier is the whole one: what stands in front of it does not end with a character
that could belong to it. This holds for every position, also for one beyond the end of its line or
beyond the last line.

Positions count characters, while editors count units of UTF-16. The two agree as long as all
characters in front are of the basic plane. The identifier and the dot always are, so that only what
stands in front of them has to be.
-/
namespace Papyrus

open Text Declaration

namespace Text

/-- How many units of UTF-16 a text takes: one for a character of the basic plane, two for any
other. -/
def units16 (text : List Char) : Nat :=
  (text.map fun c => if c.toNat ≤ 0xFFFF then 1 else 2).sum

/-- A text of the basic plane has as many units as characters. -/
theorem units16_eq_length {text : List Char} (basic : ∀ c ∈ text, c.toNat ≤ 0xFFFF) :
    units16 text = text.length := by
  induction text with
  | nil => rfl
  | cons c rest inductionHypothesis =>
    have onward := inductionHypothesis fun other member => basic other (List.mem_cons_of_mem c member)
    have single : c.toNat ≤ 0xFFFF := basic c List.mem_cons_self
    rw [units16, List.map_cons, List.sum_cons, if_pos single, ← units16, onward, List.length_cons,
      Nat.add_comm]

/-- The characters of identifiers are of the basic plane. -/
theorem toNat_le_of_isIdentifierChar {c : Char} (inIdentifier : IsIdentifierChar c) :
    c.toNat ≤ 0xFFFF := by
  have bounded {last : Char} (notAbove : c ≤ last) : c.toNat ≤ last.toNat := notAbove
  rcases inIdentifier with ⟨_, upper⟩ | ⟨_, lower⟩ | ⟨_, digit⟩ | rfl
  · exact (bounded upper).trans (by decide)
  · exact (bounded lower).trans (by decide)
  · exact (bounded digit).trans (by decide)
  · decide

end Text

namespace Completion

/-- An identifier that begins where the text in front of it ends. -/
def Stands (before name : List Char) : Prop :=
  IsIdentifier name ∧ ∀ c ∈ before.getLast?, ¬ IsIdentifierChar c

/-- Members are asked for behind an identifier and a dot. -/
theorem target?_eq_some_iff (preceding target : List Char) :
    Context.target? preceding = some target ↔
      ∃ before, preceding = before ++ target ++ ['.'] ∧ Stands before target := by
  have mirrored (word : List Char) : IsIdentifier word.reverse ↔ IsIdentifier word := by
    simp [IsIdentifier]
  constructor
  · intro asked
    unfold Context.target? at asked
    split at asked
    next backwards isReverse =>
      obtain ⟨⟨word, rest⟩, read, rfl⟩ := Option.map_eq_some_iff.mp asked
      obtain ⟨rfl, isIdentifier, ends⟩ := (word?_eq_some_iff _ _ _).mp read
      refine ⟨rest.reverse, ?_, (mirrored word).mpr isIdentifier, ?_⟩
      · rw [← List.reverse_reverse preceding, isReverse]
        simp
      · intro c isLast
        rw [List.getLast?_reverse] at isLast
        exact ends c isLast
    next => exact absurd asked.symm (Option.some_ne_none target)
  · rintro ⟨before, rfl, isIdentifier, ends⟩
    have read : word? (target.reverse ++ before.reverse) = some (target.reverse, before.reverse) := by
      refine (word?_eq_some_iff _ _ _).mpr ⟨rfl, (mirrored target).mpr isIdentifier, ?_⟩
      intro c isHead
      rw [List.head?_reverse] at isHead
      exact ends c isHead
    simp [Context.target?, read]

/-- A request is for the members of a script if the text in front asks for them. -/
theorem detect_eq_member_iff (preceding document : List Char) (target : String) :
    Context.detect preceding (some document) = .member target ↔
      ∃ before, preceding = before ++ target.toList ++ ['.'] ∧ Stands before target.toList := by
  rw [← target?_eq_some_iff, Context.detect]
  cases Context.target? preceding with
  | none => simp
  | some asked => simp [ofList_eq_iff]

/-- A request that is for no members is a general one. -/
theorem detect_ne_member_iff (preceding document : List Char) :
    (∀ target, Context.detect preceding (some document) ≠ .member target) ↔
      Context.detect preceding (some document) = .general (declaredParent document) := by
  rw [Context.detect]
  cases Context.target? preceding <;> simp

/-- The text in front of a position is what the line has there, as far as the line exists and is
long enough. -/
theorem linePrefix_eq_iff (text : List Char) (line column : Nat) {start : List Char}
    (nonempty : start ≠ []) :
    linePrefix text line column = start ↔
      ∃ written, (lines text)[line]? = some written ∧
        written.take (min column written.length) = start := by
  rw [linePrefix]
  cases (lines text)[line]? with
  | none => simp [nonempty.symm]
  | some written =>
    have clamped : written.take (min column written.length) = written.take column := by
      rw [List.take_eq_take_iff]
      omega
    simp [clamped]

/-- Members are asked for exactly behind an identifier and a dot.

For every position of every document the request is for the members of a script if the line of the
position exists and has, in front of the position, a text that ends with an identifier and a dot,
where the identifier does not go on in front. Otherwise the request is a general one, with the
parent that the document names.

Wherever an identifier and a dot stand behind a text of the basic plane, the position right behind
the dot, counted in units of UTF-16, asks for the members of that identifier. -/
theorem member_access_is_exact (text : List Char) (line column : Nat) :
    let context := Context.detect (linePrefix text line column) (some text)
    (∀ target : String, context = .member target ↔
      ∃ written before, (lines text)[line]? = some written ∧
        written.take (min column written.length) = before ++ target.toList ++ ['.'] ∧
        Stands before target.toList) ∧
    ((∀ target, context ≠ .member target) ↔ context = .general (declaredParent text)) ∧
    ∀ before name after : List Char,
      (lines text)[line]? = some (before ++ name ++ '.' :: after) → Stands before name →
      (∀ c ∈ before, c.toNat ≤ 0xFFFF) →
        Context.detect (linePrefix text line (units16 (before ++ name ++ ['.']))) (some text) =
          .member (String.ofList name) := by
  intro context
  refine ⟨?_, detect_ne_member_iff _ text, ?_⟩
  · intro target
    rw [detect_eq_member_iff]
    constructor
    · rintro ⟨before, isPrefix, stands⟩
      obtain ⟨written, isLine, taken⟩ := (linePrefix_eq_iff text line column (by simp)).mp isPrefix
      exact ⟨written, before, isLine, taken, stands⟩
    · rintro ⟨written, before, isLine, taken, stands⟩
      exact ⟨before, (linePrefix_eq_iff text line column (by simp)).mpr ⟨written, isLine, taken⟩,
        stands⟩
  · intro before name after isLine stands basic
    have units : units16 (before ++ name ++ ['.']) = (before ++ name ++ ['.']).length := by
      refine units16_eq_length fun c member => ?_
      rcases List.mem_append.mp member with inFront | isDot
      · rcases List.mem_append.mp inFront with inBefore | inName
        · exact basic c inBefore
        · exact toNat_le_of_isIdentifierChar (stands.1.2 c inName)
      · rw [List.mem_singleton.mp isDot]
        decide
    have isPrefix : linePrefix text line (units16 (before ++ name ++ ['.'])) =
        before ++ name ++ ['.'] := by
      rw [List.append_cons] at isLine
      rw [linePrefix, isLine, Option.getD_some, units, List.take_left]
    rw [detect_eq_member_iff, String.toList_ofList]
    exact ⟨before, isPrefix, stands⟩

/-- The text in front has a dot of its own and a character of several octets. Eleven units of the
second line end right behind the identifier and its dot. -/
theorem members_of_door_are_asked_for :
    let text := "ScriptName S extends P\r\nx = é.Door.Open".toList
    let before := "x = é.".toList
    (lines text)[1]? = some (before ++ "Door".toList ++ '.' :: "Open".toList) ∧
      Stands before "Door".toList ∧ units16 (before ++ "Door".toList ++ ['.']) = 11 ∧
      Context.detect (linePrefix text 1 11) (some text) = .member "Door" := by
  intro text before
  have isLine : (lines text)[1]? = some (before ++ "Door".toList ++ '.' :: "Open".toList) := by
    decide +kernel
  have stands : Stands before "Door".toList := by
    refine ⟨(isIdentifier_iff _).mpr ⟨by decide, List.all_eq_true.mp (by decide)⟩, ?_⟩
    intro c isLast
    obtain rfl : '.' = c := Option.some.inj isLast
    rw [← isWord_iff]
    decide
  have units : units16 (before ++ "Door".toList ++ ['.']) = 11 := by decide
  have basic : ∀ c ∈ before, c.toNat ≤ 0xFFFF := by
    have allBasic : before.all (fun c => decide (c.toNat ≤ 0xFFFF)) := by decide
    exact fun c member => of_decide_eq_true (List.all_eq_true.mp allBasic c member)
  have asked :=
    (member_access_is_exact text 1 0).2.2 before "Door".toList "Open".toList isLine stands basic
  rw [units] at asked
  exact ⟨isLine, stands, units, asked⟩

/-- Behind a character that takes two units, the position is one too far. -/
example : Context.detect (linePrefix "😀A.b".toList 0 (units16 "😀A.".toList)) none =
    .general none := by
  decide +kernel

end Completion
end Papyrus
