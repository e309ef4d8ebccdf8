import Papyrus.Json
import Papyrus.Text.Hex

/-!
# JSON as text

Reading takes exactly the JSON grammar. A number that is written with a fraction or an
exponent is never a whole number, even if its value is one. Writing puts no blanks between
tokens, and escapes what has to be escaped.
-/
namespace Papyrus.Json
namespace Reading

/-- Reading part of a text, which may fail. -/
abbrev Reader := StateT (List Char) Option

/-- Pass blanks. -/
def blanks : Reader Unit :=
  modify (List.dropWhile fun c => c == ' ' || c == '\t' || c == '\n' || c == '\r')

/-- Pass a given text. -/
def expect (text : List Char) : Reader Unit := do
  let rest ← get
  if text.isPrefixOf rest then set (rest.drop text.length) else failure

/-- The value of decimal digits. -/
def digitsValue (digits : List Char) : Nat :=
  digits.foldl (fun number c => number * 10 + (c.toNat - '0'.toNat)) 0

/-- Read decimal digits, of which there is at least one. -/
def digits : Reader (List Char) := do
  let rest ← get
  let found := rest.takeWhile Char.isDigit
  if found.isEmpty then failure
  set (rest.drop found.length)
  return found

/-- Pass one of some characters, if it comes next. -/
def accept? (choices : List Char) : Reader (Option Char) := do
  match ← get with
  | c :: rest =>
    if choices.contains c then
      set rest
      return some c
    else return none
  | [] => return none

/-- The largest exponent that is read. -/
def exponentLimit : Nat := 308

/-- Read a number behind its sign. -/
def number (negative : Bool) : Reader Json := do
  let whole ← digits
  if 1 < whole.length && whole.head? == some '0' then failure
  let fraction ← if (← accept? ['.']).isSome then some <$> digits else pure none
  let exponent ←
    if (← accept? ['e', 'E']).isSome then
      let sign ← accept? ['+', '-']
      let size := digitsValue (← digits)
      if exponentLimit < size then failure
      pure (some (if sign == some '-' then -(size : Int) else size))
    else pure none
  let mantissa : Int := digitsValue (whole ++ fraction.getD [])
  let signed := if negative then -mantissa else mantissa
  match fraction, exponent with
  | none, none => return .number signed 0
  | _, _ =>
    let places : Int := (fraction.getD []).length - exponent.getD 0
    if 0 < places then return .number signed places.toNat
    else return .number (signed * Nat.pow 10 (1 - places).toNat) 1

/-- The code unit behind a backslash and a letter `u`. -/
def codeUnit : Reader Nat := do
  let rest ← get
  let unit ← Text.hexNumber? 4 rest
  set (rest.drop 4)
  return unit

/-- The character behind a backslash. Two surrogates make one character, and one alone
makes none. -/
def escaped : Reader Char := do
  match ← get with
  | [] => failure
  | c :: rest =>
    set rest
    match c with
    | '"' | '\\' | '/' => return c
    | 'b' => return '\x08'
    | 'f' => return '\x0c'
    | 'n' => return '\n'
    | 'r' => return '\r'
    | 't' => return '\t'
    | 'u' =>
      let first ← codeUnit
      if 0xD800 ≤ first ∧ first < 0xDC00 then
        expect ['\\', 'u']
        let second ← codeUnit
        if 0xDC00 ≤ second ∧ second < 0xE000 then
          return Char.ofNat (0x10000 + (first - 0xD800) * 0x400 + (second - 0xDC00))
        else failure
      else if first.isValidChar then return Char.ofNat first
      else failure
    | _ => failure

/-- Read a string behind its first quote. -/
def stringFrom : Nat → List Char → Reader String
  | 0, _ => failure
  | fuel + 1, backwards => do
    match ← get with
    | [] => failure
    | c :: rest =>
      set rest
      if c == '"' then return String.ofList backwards.reverse
      else if c == '\\' then stringFrom fuel ((← escaped) :: backwards)
      else if c.toNat < 0x20 then failure
      else stringFrom fuel (c :: backwards)

/-- Read a string with its quotes. -/
def string : Reader String := do
  expect ['"']
  stringFrom ((← get).length + 1) []

/-- How deep values may be nested. -/
def depthLimit : Nat := 127

mutual

/-- Read a value, which may be nested so much deeper. -/
def value : Nat → (depth : Nat) → Reader Json
  | 0, _ => failure
  | fuel + 1, depth => do
    blanks
    match ← get with
    | [] => failure
    | c :: rest =>
      match c with
      | 'n' => expect "null".toList; return .null
      | 't' => expect "true".toList; return .bool true
      | 'f' => expect "false".toList; return .bool false
      | '"' => return .text (← string)
      | '-' => set rest; number true
      | '[' =>
        set rest
        if depth = 0 then failure
        blanks
        if (← accept? [']']).isSome then return .array []
        return .array (← items fuel (depth - 1))
      | '\x7b' =>
        set rest
        if depth = 0 then failure
        blanks
        if (← accept? ['\x7d']).isSome then return .object []
        return .object (← fields fuel (depth - 1))
      | _ => number false

/-- Read the items of an array, up to its end. -/
def items : Nat → (depth : Nat) → Reader (List Json)
  | 0, _ => failure
  | fuel + 1, depth => do
    let item ← value fuel depth
    blanks
    if (← accept? [',']).isSome then return item :: (← items fuel depth)
    expect [']']
    return [item]

/-- Read the fields of an object, up to its end. -/
def fields : Nat → (depth : Nat) → Reader (List (String × Json))
  | 0, _ => failure
  | fuel + 1, depth => do
    blanks
    let key ← string
    blanks
    expect [':']
    let item ← value fuel depth
    blanks
    if (← accept? [',']).isSome then return (key, item) :: (← fields fuel depth)
    expect ['\x7d']
    return [(key, item)]

end

end Reading

open Reading in
/-- The value that a text spells. -/
def ofText? (text : List Char) : Option Json :=
  let reading : Reader Json := do
    let result ← value (2 * text.length + 2) depthLimit
    blanks
    return result
  match reading.run text with
  | some (result, []) => some result
  | _ => none

/-- A character within a string. -/
def escape (c : Char) : List Char :=
  match c with
  | '"' => ['\\', '"']
  | '\\' => ['\\', '\\']
  | '\n' => ['\\', 'n']
  | '\r' => ['\\', 'r']
  | '\t' => ['\\', 't']
  | _ =>
    if c.toNat < 0x20 then
      let digit (value : Nat) : Char := Nat.digitChar value
      ['\\', 'u', '0', '0', digit (c.toNat / 16), digit (c.toNat % 16)]
    else [c]

/-- A string as it is written. -/
def quote (text : String) : List Char :=
  '"' :: text.toList.flatMap escape ++ ['"']

/-- A number as it is written. -/
def decimal (mantissa : Int) (places : Nat) : List Char :=
  let digits := (toString mantissa.natAbs).toList
  let sign := if mantissa < 0 then ['-'] else []
  if places = 0 then sign ++ digits
  else
    let padded := List.replicate (places + 1 - digits.length) '0' ++ digits
    sign ++ padded.take (padded.length - places) ++ '.' :: padded.drop (padded.length - places)

mutual

/-- A value as it is written. -/
def render : Json → List Char
  | .null => "null".toList
  | .bool true => "true".toList
  | .bool false => "false".toList
  | .number mantissa places => decimal mantissa places
  | .text value => quote value
  | .array items => '[' :: renderItems items ++ [']']
  | .object fields => '\x7b' :: renderFields fields ++ ['\x7d']

/-- The items of an array as they are written, with commas between them. -/
def renderItems : List Json → List Char
  | [] => []
  | [item] => render item
  | item :: rest => render item ++ ',' :: renderItems rest

/-- The fields of an object as they are written, with commas between them. -/
def renderFields : List (String × Json) → List Char
  | [] => []
  | [(key, item)] => quote key ++ ':' :: render item
  | (key, item) :: rest => quote key ++ ':' :: render item ++ ',' :: renderFields rest

end

end Papyrus.Json
