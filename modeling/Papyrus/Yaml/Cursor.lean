/-!
# A place in a YAML text

A cursor is the text still to be read together with the line and the column where it
starts, both counted from zero, and the number of characters before it. Line breaks are
line feed, carriage return, the two together, next line, and the line and paragraph
separators.
-/
namespace Papyrus.Yaml

/-- Why a text is no YAML, or not the YAML that is asked for. -/
inductive Error where
  | forbiddenCharacter
  | unexpectedCharacter
  | unexpectedEnd
  | unexpectedTab
  | documentInside
  | missingColon
  | entryNotAllowed
  | keyNotAllowed
  | valueNotAllowed
  | badDirective
  | duplicateDirective
  | incompatibleVersion
  | badAnchor
  | unknownAnchor
  | badTag
  | unknownHandle
  | badBlockHeader
  | badEscape
  | unexpectedToken
  | severalDocuments
  | tooDeep
  | notMapping
  | notText
  | duplicateField
  deriving DecidableEq, Repr

namespace Error

/-- What is wrong, in words. -/
def message : Error → String
  | .forbiddenCharacter => "control characters are not allowed"
  | .unexpectedCharacter => "found character that cannot start any token"
  | .unexpectedEnd => "found unexpected end of stream"
  | .unexpectedTab => "found a tab character that violates indentation"
  | .documentInside => "found unexpected document indicator"
  | .missingColon => "could not find expected ':'"
  | .entryNotAllowed => "block sequence entries are not allowed in this context"
  | .keyNotAllowed => "mapping keys are not allowed in this context"
  | .valueNotAllowed => "mapping values are not allowed in this context"
  | .badDirective => "malformed directive"
  | .duplicateDirective => "found duplicate directive"
  | .incompatibleVersion => "found incompatible YAML document"
  | .badAnchor => "did not find expected alphabetic or numeric character"
  | .unknownAnchor => "unknown anchor"
  | .badTag => "malformed tag"
  | .unknownHandle => "found undefined tag handle"
  | .badBlockHeader => "malformed block scalar header"
  | .badEscape => "found unknown escape character"
  | .unexpectedToken => "did not find expected node content"
  | .severalDocuments => "more than one document"
  | .tooDeep => "nesting is too deep"
  | .notMapping => "expected a mapping"
  | .notText => "expected a string"
  | .duplicateField => "duplicate field"

end Error

/-- The text that is left, and where it starts. -/
structure Cursor where
  rest : List Char
  index : Nat := 0
  line : Nat := 0
  column : Nat := 0

/-- The characters that end a line. -/
def isBreak (c : Char) : Bool :=
  c == '\n' || c == '\r' || c == '\x85' || c == '\u2028' || c == '\u2029'

/-- The characters that separate within a line. -/
def isSpace (c : Char) : Bool :=
  c == ' ' || c == '\t'

/-- Whether a text is over or starts with a space or a line break. -/
def startsBlank : List Char → Bool
  | [] => true
  | c :: _ => isSpace c || isBreak c

/-- Whether a text is over or starts with a line break. -/
def startsBreak : List Char → Bool
  | [] => true
  | c :: _ => isBreak c

/-- The characters of anchors, directive names and tag handles. -/
def isNameCharacter (c : Char) : Bool :=
  c.isAlphanum || c == '_' || c == '-'

namespace Cursor

/-- The next character. -/
def peek? (cursor : Cursor) : Option Char := cursor.rest.head?

/-- Pass some characters of one line. -/
def skip (cursor : Cursor) (count : Nat) : Cursor :=
  { cursor with
    rest := cursor.rest.drop count
    index := cursor.index + count
    column := cursor.column + count }

/-- Pass a line break, and give it as text: a line feed, except for the two Unicode
separators, which stand for themselves. -/
def passBreak (cursor : Cursor) : List Char × Cursor :=
  let behind (rest : List Char) (count : Nat) : Cursor :=
    ⟨rest, cursor.index + count, cursor.line + 1, 0⟩
  match cursor.rest with
  | '\r' :: '\n' :: rest => (['\n'], behind rest 2)
  | c :: rest =>
    if c == '\u2028' || c == '\u2029' then ([c], behind rest 1)
    else if isBreak c then (['\n'], behind rest 1)
    else ([], cursor)
  | [] => ([], cursor)

/-- Pass the longest run of characters of one kind, which are no line breaks. -/
def span (cursor : Cursor) (kind : Char → Bool) : List Char × Cursor :=
  let run := cursor.rest.takeWhile kind
  (run, cursor.skip run.length)

/-- Pass spaces and tabs. -/
def skipSpaces (cursor : Cursor) : Cursor := (cursor.span isSpace).2

/-- Pass everything up to the end of the line. -/
def skipToBreak (cursor : Cursor) : Cursor := (cursor.span fun c => !isBreak c).2

/-- Pass a comment, if one starts here. -/
def skipComment (cursor : Cursor) : Cursor :=
  if cursor.peek? == some '#' then cursor.skipToBreak else cursor

/-- Whether a line starts here with three given characters and a blank. -/
def atIndicator (cursor : Cursor) (mark : Char) : Bool :=
  cursor.column == 0 &&
    match cursor.rest with
    | a :: b :: c :: rest => a == mark && b == mark && c == mark && startsBlank rest
    | _ => false

/-- Whether a document starts or ends here. -/
def atDocumentIndicator (cursor : Cursor) : Bool :=
  cursor.atIndicator '-' || cursor.atIndicator '.'

/-- Pass the rest of a line on which only a comment may follow. None where anything
else follows. -/
def finishLine? (cursor : Cursor) : Option Cursor :=
  let cursor := cursor.skipSpaces.skipComment
  if startsBreak cursor.rest then some cursor.passBreak.2 else none

end Cursor

/-- The characters that a YAML text may hold. A byte order mark is allowed at the very
start only, where it is not part of the text. -/
def isAllowed (c : Char) : Bool :=
  let code := c.toNat
  code == 0x9 || code == 0xA || code == 0xD || (0x20 ≤ code && code ≤ 0x7E) || code == 0x85
    || (0xA0 ≤ code && code ≤ 0xD7FF) || (0xE000 ≤ code && code ≤ 0xFFFD && code != 0xFEFF)
    || 0x10000 ≤ code

/-- A cursor at the start of a text. -/
def Cursor.ofText (text : List Char) : Except Error Cursor :=
  let text := if text.head? == some '\ufeff' then text.drop 1 else text
  if text.all isAllowed then .ok { rest := text } else .error .forbiddenCharacter

end Papyrus.Yaml
