import Papyrus.Text.Hex
import Papyrus.Toml.Value

/-!
# Strings

A string stands in single or double quotes, or in three of either, within which it may
go over several lines. Escapes work in double quotes only. Each reader starts behind the
opening quotes and gives the text together with what follows the closing ones.
-/
namespace Papyrus.Toml.Quoted

open Text (hexCharacter?)

/-- The characters that may stand in comments and strings: no control characters apart
from the tab. -/
def isPlain (c : Char) : Bool :=
  c == '\t' || (0x20 ≤ c.toNat && c.toNat != 0x7F)

/-- The character for an escape behind a backslash, and how long the escape is. -/
def escape? : List Char → Option (Char × Nat)
  | [] => none
  | c :: rest =>
    match c with
    | 'b' => some ('\x08', 1)
    | 't' => some ('\t', 1)
    | 'n' => some ('\n', 1)
    | 'f' => some ('\x0c', 1)
    | 'r' => some ('\r', 1)
    | 'e' => some ('\x1b', 1)
    | '"' => some ('"', 1)
    | '\\' => some ('\\', 1)
    | 'x' => (hexCharacter? 2 rest).map (·, 3)
    | 'u' => (hexCharacter? 4 rest).map (·, 5)
    | 'U' => (hexCharacter? 8 rest).map (·, 9)
    | _ => none

/-- Pass one line break. -/
def afterBreak? : List Char → Option (List Char)
  | '\n' :: rest | '\r' :: '\n' :: rest => some rest
  | _ => none

/-- Read a string on one line, of which the text so far is given backwards. -/
def lineFrom (quote : Char) : Nat → List Char → List Char → Except Error (List Char × List Char)
  | 0, _, _ => .error .unexpectedEnd
  | _ + 1, _, [] => .error .unexpectedEnd
  | fuel + 1, backwards, c :: rest =>
    if c == quote then .ok (backwards.reverse, rest)
    else if c == '\\' && quote == '"' then
      match escape? rest with
      | some (character, length) => lineFrom quote fuel (character :: backwards) (rest.drop length)
      | none => .error .badEscape
    else if isPlain c then lineFrom quote fuel (c :: backwards) rest
    else .error .unexpectedCharacter

/-- What follows blanks and line breaks. -/
def afterBlankLines : List Char → List Char
  | ' ' :: rest | '\t' :: rest | '\n' :: rest | '\r' :: '\n' :: rest => afterBlankLines rest
  | text => text

/-- What follows a line break that is escaped, with the blank lines behind it; none where
something else than blanks stands between the backslash and the line break. -/
def afterEscapedBreak? (text : List Char) : Option (List Char) :=
  (afterBreak? (text.dropWhile fun c => c == ' ' || c == '\t')).map afterBlankLines

/-- Read a string over several lines, of which the text so far is given backwards. One or
two quotes belong to the text, also directly in front of the closing ones. -/
def linesFrom (quote : Char) : Nat → List Char → List Char → Except Error (List Char × List Char)
  | 0, _, _ => .error .unexpectedEnd
  | _ + 1, _, [] => .error .unexpectedEnd
  | fuel + 1, backwards, c :: rest =>
    if c == quote then
      let quotes := ((c :: rest).takeWhile (· == quote)).take 5
      let behind := (c :: rest).drop quotes.length
      if quotes.length < 3 then linesFrom quote fuel (quotes ++ backwards) behind
      else .ok ((quotes.drop 3 ++ backwards).reverse, behind)
    else if c == '\\' && quote == '"' then
      match afterEscapedBreak? rest with
      | some behind => linesFrom quote fuel backwards behind
      | none =>
        match escape? rest with
        | some (character, length) =>
          linesFrom quote fuel (character :: backwards) (rest.drop length)
        | none => .error .badEscape
    else if c == '\r' && rest.head? == some '\n' then linesFrom quote fuel (c :: backwards) rest
    else if isPlain c || c == '\n' then linesFrom quote fuel (c :: backwards) rest
    else .error .unexpectedCharacter

/-- Read a string on one line, given its quote and what follows that. -/
def line (quote : Char) (text : List Char) : Except Error (List Char × List Char) :=
  lineFrom quote (text.length + 1) [] text

/-- Read a string, given its first quote and what follows that. A line break directly
behind three quotes is not part of the text. -/
def read (quote : Char) (text : List Char) : Except Error (List Char × List Char) :=
  match text with
  | a :: b :: rest =>
    if a == quote && b == quote then
      linesFrom quote (rest.length + 1) [] ((afterBreak? rest).getD rest)
    else line quote text
  | _ => line quote text

end Papyrus.Toml.Quoted
