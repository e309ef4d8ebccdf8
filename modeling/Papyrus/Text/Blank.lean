/-!
# Blank characters and trimming

Text is handled as a list of characters. A character is blank when it has the
Unicode property White_Space; the property is stable, so its ranges are written
out. Trimming removes blanks only, and leaves everything between the first and
the last other character as it is.
-/
namespace Papyrus.Text

/-- The Unicode property White_Space. Zero width space and the byte order mark
do not have it, nor do the four information separators. -/
def isBlank (c : Char) : Bool :=
  let code := c.toNat
  (0x9 ≤ code && code ≤ 0xD) || code == 0x20 || code == 0x85 || code == 0xA0
    || code == 0x1680 || (0x2000 ≤ code && code ≤ 0x200A) || code == 0x2028
    || code == 0x2029 || code == 0x202F || code == 0x205F || code == 0x3000

/-- Text without its leading blanks. -/
def trimStart (text : List Char) : List Char :=
  text.dropWhile isBlank

/-- Text without its trailing blanks. -/
def trimEnd (text : List Char) : List Char :=
  (text.reverse.dropWhile isBlank).reverse

/-- Text without blanks at either end. -/
def trim (text : List Char) : List Char :=
  trimEnd (trimStart text)

/-- What follows one or more leading blanks; none where no blank leads. -/
def afterBlanks? : List Char → Option (List Char)
  | [] => none
  | c :: rest => if isBlank c then some (trimStart rest) else none

/-- A blank is consumed exactly where the text is shorter once trimmed. -/
theorem afterBlanks?_eq_some_iff (text rest : List Char) :
    afterBlanks? text = some rest ↔ trimStart text = rest ∧ trimStart text ≠ text := by
  cases text with
  | nil => simp [afterBlanks?, trimStart]
  | cons c tail =>
    by_cases blank : isBlank c
    · have shorter : (trimStart tail).length ≤ tail.length :=
        (List.dropWhile_sublist isBlank).length_le
      have differs : trimStart tail ≠ c :: tail := fun same => by
        have := congrArg List.length same
        simp at this
        omega
      simp only [afterBlanks?, blank, if_true, Option.some.injEq, trimStart,
        List.dropWhile_cons] at *
      exact ⟨fun same => ⟨same, differs⟩, fun both => both.1⟩
    · simp [afterBlanks?, trimStart, blank]

end Papyrus.Text
