import Papyrus.Text.Hex
import Papyrus.Toml.Value

/-!
# Numbers, truth values and dates

Values that are not in quotes or brackets are checked for their form and their range;
what they stand for is not needed.
-/
namespace Papyrus.Toml.Scalar

/-- The digits of a number without the underscores between them. Every underscore has a
digit on both sides. -/
def digits? (isDigit : Char → Bool) : List Char → Option (List Char)
  | [] => none
  | [c] => if isDigit c then some [c] else none
  | c :: '_' :: rest => if isDigit c then (digits? isDigit rest).map (c :: ·) else none
  | c :: rest => if isDigit c then (digits? isDigit rest).map (c :: ·) else none

/-- The number that digits stand for. -/
def number (base : Nat) (digits : List Char) : Nat :=
  digits.foldl (fun number c => number * base + (Text.hexDigit? c).getD 0) 0

/-- A text without its sign, and whether that is a minus. -/
def unsigned : List Char → Bool × List Char
  | '+' :: rest => (false, rest)
  | '-' :: rest => (true, rest)
  | text => (false, text)

/-- The digits of a decimal number, which do not start with a superfluous zero. -/
def decimal? (text : List Char) : Option (List Char) := do
  let digits ← digits? Char.isDigit text
  if digits.length > 1 && digits.head? == some '0' then none else return digits

/-- The value of an integer: decimal with an optional sign, or hexadecimal, octal or
binary without one. -/
def integer? : List Char → Option Int
  | '0' :: 'x' :: rest =>
    (digits? (fun c => (Text.hexDigit? c).isSome) rest).map fun digits => number 16 digits
  | '0' :: 'o' :: rest =>
    (digits? (fun c => '0' ≤ c && c ≤ '7') rest).map fun digits => number 8 digits
  | '0' :: 'b' :: rest =>
    (digits? (fun c => c == '0' || c == '1') rest).map fun digits => number 2 digits
  | text =>
    let (negative, text) := unsigned text
    (decimal? text).map fun digits =>
      let size : Int := number 10 digits
      if negative then -size else size

/-- The exponent of a number: the sign and the digits behind the letter. -/
def exponent? (text : List Char) : Option Int := do
  let (negative, text) := unsigned text
  let digits ← digits? Char.isDigit text
  let size : Int := number 10 digits
  return if negative then -size else size

/-- A finite number with a fraction or an exponent, as an integer times a power of ten. -/
def fraction? (text : List Char) : Option (Nat × Int) := do
  let (_, text) := unsigned text
  let isExponent (c : Char) : Bool := c == 'e' || c == 'E'
  let front := text.takeWhile fun c => !isExponent c
  let whole := front.takeWhile (· ≠ '.')
  let wholeDigits ← decimal? whole
  let exponent ← match text.dropWhile fun c => !isExponent c with
    | [] => if whole.length = front.length then none else some 0
    | _ :: rest => exponent? rest
  match front.dropWhile (· ≠ '.') with
  | [] => return (number 10 wholeDigits, exponent)
  | _ :: behind =>
    let places ← digits? Char.isDigit behind
    return (number 10 (wholeDigits ++ places), exponent - places.length)

/-- Whether an integer times a power of ten is too large for a binary number of 64 bits.
The numbers from half a step above the largest finite one on are. -/
def overflows (mantissa : Nat) (exponent : Int) : Bool :=
  let limit := Nat.pow 2 1024 - Nat.pow 2 970
  let length : Int := (Nat.toDigits 10 mantissa).length
  if mantissa = 0 ∨ length + exponent < 300 then false
  else if 400 < length + exponent then true
  else if 0 ≤ exponent then limit ≤ mantissa * Nat.pow 10 exponent.toNat
  else limit * Nat.pow 10 (-exponent).toNat ≤ mantissa

/-- Whether a text is one of the numbers that are not finite. -/
def isSpecial (text : List Char) : Bool :=
  let (_, text) := unsigned text
  text == "inf".toList || text == "nan".toList

/-- A number of exactly so many decimal digits at the start of a text. -/
def fixed? (count : Nat) (text : List Char) : Option (Nat × List Char) :=
  let digits := text.take count
  if digits.length = count ∧ digits.all Char.isDigit then some (number 10 digits, text.drop count)
  else none

/-- What follows a given character. -/
def after? (c : Char) : List Char → Option (List Char)
  | d :: rest => if c = d then some rest else none
  | [] => none

/-- How many days a month has. -/
def daysIn (year month : Nat) : Nat :=
  if month = 2 then
    if year % 4 = 0 ∧ (year % 100 ≠ 0 ∨ year % 400 = 0) then 29 else 28
  else if [4, 6, 9, 11].contains month then 30
  else 31

/-- What follows a date. -/
def date? (text : List Char) : Option (List Char) := do
  let (year, text) ← fixed? 4 text
  let (month, text) ← fixed? 2 (← after? '-' text)
  let (day, text) ← fixed? 2 (← after? '-' text)
  if 1 ≤ month ∧ month ≤ 12 ∧ 1 ≤ day ∧ day ≤ daysIn year month then return text else none

/-- What follows the fraction of a second, if there is one. -/
def subsecond? : List Char → Option (List Char)
  | '.' :: rest =>
    if rest.head?.any Char.isDigit then some (rest.dropWhile Char.isDigit) else none
  | text => some text

/-- What follows a time. The seconds may be left out, and may be those of a leap second. -/
def time? (text : List Char) : Option (List Char) := do
  let (hour, text) ← fixed? 2 text
  let (minute, text) ← fixed? 2 (← after? ':' text)
  if 23 < hour ∨ 59 < minute then none
  else
    match text with
    | ':' :: rest => do
      let (second, text) ← fixed? 2 rest
      if 60 < second then none else subsecond? text
    | text => return text

/-- Whether a text is empty or the offset of a time zone. -/
def isOffset : List Char → Bool
  | [] | ['Z'] | ['z'] => true
  | sign :: rest =>
    (sign == '+' || sign == '-') &&
      match (do
        let (hours, text) ← fixed? 2 rest
        let (minutes, text) ← fixed? 2 (← after? ':' text)
        if text.isEmpty then some (hours * 60 + minutes) else none) with
      | some minutes => decide (minutes ≤ 24 * 60)
      | none => false

/-- Whether a text is a date, a time, or both with or without a time zone. -/
def isMoment (text : List Char) : Bool :=
  match date? text with
  | some [] => true
  | some (c :: rest) => (c == 'T' || c == 't' || c == ' ') && (time? rest).any isOffset
  | none => (time? text).any List.isEmpty

/-- The characters that a value without quotes or brackets can have. -/
def isScalarCharacter (c : Char) : Bool :=
  c.isAlphanum || "+-._:".toList.contains c

/-- Read a value without quotes or brackets. A space joins a date and a time. -/
def read (text : List Char) : Except Error (Value × List Char) :=
  let word := text.takeWhile isScalarCharacter
  let behind := text.drop word.length
  let (word, behind) :=
    match date? word, behind with
    | some [], ' ' :: rest =>
      if rest.head?.any Char.isDigit then
        let time := rest.takeWhile isScalarCharacter
        (word ++ ' ' :: time, rest.drop time.length)
      else (word, behind)
    | _, _ => (word, behind)
  if word == "true".toList || word == "false".toList || isSpecial word || isMoment word then
    .ok (.scalar, behind)
  else
    match integer? word, fraction? word with
    | some size, _ =>
      if -(Nat.pow 2 127 : Int) ≤ size ∧ size < (Nat.pow 2 128 : Int) then .ok (.scalar, behind)
      else .error .numberTooLarge
    | none, some (mantissa, exponent) =>
      if overflows mantissa exponent then .error .numberTooLarge else .ok (.scalar, behind)
    | none, none => .error .badScalar

end Papyrus.Toml.Scalar
