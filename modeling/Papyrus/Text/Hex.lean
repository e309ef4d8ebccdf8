/-!
# Hexadecimal numbers
-/
namespace Papyrus.Text

/-- The value of a hexadecimal digit. -/
def hexDigit? (c : Char) : Option Nat :=
  if '0' ≤ c ∧ c ≤ '9' then some (c.toNat - '0'.toNat)
  else if 'a' ≤ c ∧ c ≤ 'f' then some (c.toNat - 'a'.toNat + 10)
  else if 'A' ≤ c ∧ c ≤ 'F' then some (c.toNat - 'A'.toNat + 10)
  else none

/-- The number written by exactly so many hexadecimal digits at the start of a text. -/
def hexNumber? (digits : Nat) (text : List Char) : Option Nat :=
  let written := text.take digits
  if written.length = digits then
    written.foldlM (fun number c => (hexDigit? c).map (number * 16 + ·)) 0
  else none

/-- The character that so many hexadecimal digits name. Surrogates name none. -/
def hexCharacter? (digits : Nat) (text : List Char) : Option Char := do
  let code ← hexNumber? digits text
  if code.isValidChar then return Char.ofNat code else none

end Papyrus.Text
