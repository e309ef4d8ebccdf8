import Papyrus.Text.Hex
import Papyrus.Text.Utf8
import Papyrus.Yaml.Scalar
import Papyrus.Yaml.Token

/-!
# Anchors, tags and directives

An anchor names a node so that an alias can repeat it. A tag is a short form of a
longer name: its handle stands for an expansion that a directive may set. The other
directive gives the version of the language.
-/
namespace Papyrus.Yaml.Property

/-- Read the name behind the indicator of an anchor or an alias. -/
def name (cursor : Cursor) : Except Error (String × Cursor) :=
  let (name, behind) := (cursor.skip 1).span isNameCharacter
  let ends := startsBlank behind.rest ||
    behind.peek?.any fun c => "?:,]\x7d%@`".toList.contains c
  if name.isEmpty || !ends then .error .badAnchor else .ok (String.ofList name, behind)

/-- The characters of a tag. Within angle brackets and directives, flow indicators may
be among them. -/
def isTagCharacter (verbatim : Bool) (c : Char) : Bool :=
  isNameCharacter c || ";/?:@&=+$.!~*'()%".toList.contains c
    || (verbatim && ",[]".toList.contains c)

/-- How many octets a character has whose first octet is given. -/
def octetCount? (first : Nat) : Option Nat :=
  if first < 0x80 then some 1
  else if 0xC0 ≤ first ∧ first < 0xE0 then some 2
  else if 0xE0 ≤ first ∧ first < 0xF0 then some 3
  else if 0xF0 ≤ first ∧ first < 0xF8 then some 4
  else none

/-- The octets behind the first of an escaped character. -/
def laterOctets? : Nat → List Char → Option (List UInt8)
  | 0, _ => some []
  | count + 1, text => do
    let octet ← if text.head? == some '%' then Text.hexNumber? 2 (text.drop 1) else none
    if octet / 64 = 2 then
      let more ← laterOctets? count (text.drop 3)
      return UInt8.ofNat octet :: more
    else none

/-- The octets of a character that is escaped octet by octet. -/
def escapedOctets? (text : List Char) : Option (List UInt8) := do
  let first ← if text.head? == some '%' then Text.hexNumber? 2 (text.drop 1) else none
  let count ← octetCount? first
  let more ← laterOctets? (count - 1) (text.drop 3)
  return UInt8.ofNat first :: more

/-- Read the characters of a tag, with their escapes replaced. -/
def tagText (verbatim : Bool) : Nat → Cursor → Except Error (List Char × Cursor)
  | 0, cursor => .ok ([], cursor)
  | fuel + 1, cursor =>
    match cursor.peek? with
    | none => .ok ([], cursor)
    | some '%' =>
      match escapedOctets? cursor.rest with
      | none => .error .badTag
      | some octets => do
        let (rest, behind) ← tagText verbatim fuel (cursor.skip (3 * octets.length))
        return (Text.Utf8.decodeLossy octets ++ rest, behind)
    | some c =>
      if isTagCharacter verbatim c then do
        let (rest, behind) ← tagText verbatim fuel (cursor.skip 1)
        return (c :: rest, behind)
      else .ok ([], cursor)

/-- Read the characters of a tag at a cursor. -/
def tagTextAt (verbatim : Bool) (cursor : Cursor) : Except Error (List Char × Cursor) :=
  tagText verbatim (cursor.rest.length + 1) cursor

/-- Read a tag handle: an exclamation mark, and a name with another one where that
follows. Without the second mark, the name is not closed. -/
def handle (cursor : Cursor) : Except Error (List Char × Cursor) :=
  if cursor.peek? != some '!' then .error .badTag
  else
    let (name, behind) := (cursor.skip 1).span isNameCharacter
    if behind.peek? == some '!' then .ok ('!' :: name ++ ['!'], behind.skip 1)
    else .ok ('!' :: name, behind)

/-- Whether a handle is closed by a second exclamation mark. -/
def isClosed (handle : List Char) : Bool :=
  1 < handle.length && handle.getLast? == some '!'

/-- Read a tag as its handle and its suffix. A tag in angle brackets has an empty
handle, and so has the tag that is a lone exclamation mark. -/
def tag (flow : Bool) (cursor : Cursor) : Except Error (Token × Cursor) := do
  let (token, cursor) ←
    if cursor.rest.take 2 == ['!', '<'] then do
      let (text, behind) ← tagTextAt true (cursor.skip 2)
      if text.isEmpty || behind.peek? != some '>' then throw .badTag
      pure (Token.tag "" (String.ofList text), behind.skip 1)
    else do
      let (handle, behind) ← handle cursor
      if isClosed handle then
        let (text, behind) ← tagTextAt false behind
        if text.isEmpty then throw .badTag
        pure (Token.tag (String.ofList handle) (String.ofList text), behind)
      else
        let (text, behind) ← tagTextAt false behind
        let suffix := handle.drop 1 ++ text
        if suffix.isEmpty then pure (Token.tag "" "!", behind)
        else pure (Token.tag "!" (String.ofList suffix), behind)
  if startsBlank cursor.rest || (flow && cursor.peek? == some ',') then return (token, cursor)
  else throw .badTag

/-- Read a number of a version, of at most nine digits. -/
def versionNumber (cursor : Cursor) : Except Error (Nat × Cursor) :=
  let (digits, behind) := cursor.span Char.isDigit
  if digits.isEmpty || 9 < digits.length then .error .badDirective
  else .ok (digits.foldl (fun number c => number * 10 + (c.toNat - '0'.toNat)) 0, behind)

/-- Read a version directive behind its name. -/
def version (cursor : Cursor) : Except Error (Token × Cursor) := do
  let (major, cursor) ← versionNumber cursor.skipSpaces
  if cursor.peek? != some '.' then throw .badDirective
  let (minor, cursor) ← versionNumber (cursor.skip 1)
  return (.version major minor, cursor)

/-- Read a tag directive behind its name. -/
def tagHandle (cursor : Cursor) : Except Error (Token × Cursor) := do
  let (handle, cursor) ← handle cursor.skipSpaces
  if handle != ['!'] && !isClosed handle then throw .badDirective
  if !cursor.peek?.any isSpace then throw .badDirective
  let (expansion, cursor) ← tagTextAt true cursor.skipSpaces
  if expansion.isEmpty || !startsBlank cursor.rest then throw .badDirective
  return (.tagHandle (String.ofList handle) (String.ofList expansion), cursor)

/-- Read a directive, with the whole line that it stands on. -/
def directive (cursor : Cursor) : Except Error (Token × Cursor) := do
  let (name, behind) := (cursor.skip 1).span isNameCharacter
  if !startsBlank behind.rest then throw .badDirective
  let (token, behind) ←
    match String.ofList name with
    | "YAML" => version behind
    | "TAG" => tagHandle behind
    | _ => throw .badDirective
  match behind.finishLine? with
  | some cursor => return (token, cursor)
  | none => throw .badDirective

end Papyrus.Yaml.Property
