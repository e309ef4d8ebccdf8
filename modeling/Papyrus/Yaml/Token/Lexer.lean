import Papyrus.Yaml.Property

/-!
# From text to tokens

The lexer reads the marks of a text one after the other and adds the tokens that
indentation implies. Outside brackets, a mark further to the right than the current
block opens a block, and a line that starts further to the left closes blocks.

A key is recognised only by the colon behind it. So every token that could be one is
kept as a candidate, one for each level of brackets; when the colon comes, the key token
is put in front of it. A candidate is given up when the line ends or more than 1024
characters follow. If it stands where the current block expects a key, giving it up is
an error.
-/
namespace Papyrus.Yaml

/-- A token that turns out to be a key if a colon follows. -/
structure Candidate where
  /-- How many tokens come before it. -/
  position : Nat
  /-- Whether the current block expects a key here. -/
  required : Bool
  index : Nat
  line : Nat
  column : Nat

/-- What has been read, and the state of the layout. -/
structure Lexer where
  cursor : Cursor
  tokens : List Token := []
  /-- The column of the current block, where there is one. -/
  indent : Int := -1
  /-- The columns of the blocks around it, the innermost first. -/
  indents : List Int := []
  /-- Whether a key may start at the next token. -/
  keyAllowed : Bool := true
  /-- The candidate outside all brackets that are open. -/
  candidate : Option Candidate := none
  /-- The candidates outside each open bracket, the innermost first. -/
  outer : List (Option Candidate) := []

namespace Lexer

/-- Whether some bracket is open. -/
def inFlow (lexer : Lexer) : Bool := !lexer.outer.isEmpty

/-- Add a token. -/
def push (lexer : Lexer) (token : Token) : Lexer :=
  { lexer with tokens := lexer.tokens ++ [token] }

/-- Put a token in front of those from a position on. -/
def insertAt (lexer : Lexer) (position : Nat) (token : Token) : Lexer :=
  { lexer with
    tokens := lexer.tokens.take position ++ token :: lexer.tokens.drop position }

/-- Give up the candidate of the current level. -/
def dropCandidate (lexer : Lexer) : Except Error Lexer :=
  if lexer.candidate.any (·.required) then .error .missingColon
  else .ok { lexer with candidate := none }

/-- Whether a candidate is too far back to be a key. -/
def isStale (cursor : Cursor) (candidate : Candidate) : Bool :=
  candidate.line < cursor.line || candidate.index + 1024 < cursor.index

/-- Keep a candidate that can still be a key. -/
def keepFresh (cursor : Cursor) : Option Candidate → Except Error (Option Candidate)
  | none => .ok none
  | some candidate =>
    if isStale cursor candidate then
      if candidate.required then .error .missingColon else .ok none
    else .ok (some candidate)

/-- Give up the candidates that are too far back. -/
def dropStale (lexer : Lexer) : Except Error Lexer := do
  let outer ← lexer.outer.mapM (keepFresh lexer.cursor)
  let candidate ← keepFresh lexer.cursor lexer.candidate
  return { lexer with candidate, outer }

/-- Make the next token the candidate of its level, where a key may start. -/
def saveCandidate (lexer : Lexer) : Except Error Lexer :=
  if lexer.keyAllowed then do
    let lexer ← lexer.dropCandidate
    let cursor := lexer.cursor
    return { lexer with candidate := some {
      position := lexer.tokens.length
      required := !lexer.inFlow && lexer.indent == (cursor.column : Int)
      index := cursor.index
      line := cursor.line
      column := cursor.column } }
  else .ok lexer

/-- Open a block at a column, if that is further to the right than the current one. Its
token goes in front of those from a position on. -/
def openBlock (lexer : Lexer) (column : Nat) (position : Nat) (token : Token) : Lexer :=
  if !lexer.inFlow && lexer.indent < column then
    { lexer.insertAt position token with
      indent := column
      indents := lexer.indent :: lexer.indents }
  else lexer

/-- Close blocks, given the columns around the current one. -/
def closeBlocks (column : Int) (lexer : Lexer) : List Int → Lexer
  | [] => lexer
  | around :: rest =>
    if column < lexer.indent then
      closeBlocks column { lexer.push .blockEnd with indent := around, indents := rest } rest
    else lexer

/-- Close every block further to the right than a column. -/
def unroll (lexer : Lexer) (column : Int) : Lexer :=
  if lexer.inFlow then lexer else closeBlocks column lexer lexer.indents

/-- Pass blanks and comments up to the next token. A new line outside brackets allows a
key. Tabs may not stand where a key is allowed. -/
def skipBlanks : Nat → Lexer → Lexer
  | 0, lexer => lexer
  | fuel + 1, lexer =>
    let tabs := lexer.inFlow || !lexer.keyAllowed
    let cursor := (lexer.cursor.span fun c => c == ' ' || (tabs && c == '\t')).2.skipComment
    if cursor.rest.head?.any isBreak then
      skipBlanks fuel
        { lexer with
          cursor := cursor.passBreak.2
          keyAllowed := lexer.keyAllowed || !lexer.inFlow }
    else { lexer with cursor }

/-- Add a token of so many characters. -/
def mark (lexer : Lexer) (token : Token) (length : Nat) : Lexer :=
  { lexer.push token with cursor := lexer.cursor.skip length }

/-- End all blocks in front of a directive or a document mark. -/
def leaveBlocks (lexer : Lexer) : Except Error Lexer := do
  let lexer ← (lexer.unroll (-1)).dropCandidate
  return { lexer with keyAllowed := false }

/-- Open a bracket. -/
def openFlow (lexer : Lexer) (token : Token) : Except Error Lexer := do
  let lexer ← lexer.saveCandidate
  return { lexer.mark token 1 with
    keyAllowed := true
    candidate := none
    outer := lexer.candidate :: lexer.outer }

/-- Close a bracket. -/
def closeFlow (lexer : Lexer) (token : Token) : Except Error Lexer := do
  let lexer ← lexer.dropCandidate
  let lexer := { lexer.mark token 1 with keyAllowed := false }
  return match lexer.outer with
    | [] => lexer
    | candidate :: outer => { lexer with candidate, outer }

/-- Separate two entries in brackets. -/
def flowEntry (lexer : Lexer) : Except Error Lexer := do
  let lexer ← lexer.dropCandidate
  return { lexer.mark .flowEntry 1 with keyAllowed := true }

/-- Start an entry of a block sequence. -/
def blockEntry (lexer : Lexer) : Except Error Lexer := do
  if !lexer.inFlow && !lexer.keyAllowed then throw .entryNotAllowed
  let lexer := lexer.openBlock lexer.cursor.column lexer.tokens.length .blockSequenceStart
  let lexer ← lexer.dropCandidate
  return { lexer.mark .blockEntry 1 with keyAllowed := true }

/-- Start a key that is marked as one. -/
def explicitKey (lexer : Lexer) : Except Error Lexer := do
  if !lexer.inFlow && !lexer.keyAllowed then throw .keyNotAllowed
  let lexer := lexer.openBlock lexer.cursor.column lexer.tokens.length .blockMappingStart
  let lexer ← lexer.dropCandidate
  return { lexer.mark .key 1 with keyAllowed := !lexer.inFlow }

/-- Start a value. If there is a candidate, it is the key. -/
def value (lexer : Lexer) : Except Error Lexer :=
  match lexer.candidate with
  | some candidate =>
    let lexer := lexer.insertAt candidate.position .key
    let lexer := lexer.openBlock candidate.column candidate.position .blockMappingStart
    .ok { lexer.mark .value 1 with candidate := none, keyAllowed := false }
  | none =>
    if !lexer.inFlow && !lexer.keyAllowed then .error .valueNotAllowed
    else
      let lexer := lexer.openBlock lexer.cursor.column lexer.tokens.length .blockMappingStart
      .ok { lexer.mark .value 1 with keyAllowed := !lexer.inFlow }

/-- Add a token that may be a key or a part of one, as a reader gives it. -/
def content (lexer : Lexer) (read : Cursor → Except Error (Token × Cursor)) :
    Except Error Lexer := do
  let lexer ← lexer.saveCandidate
  let (token, cursor) ← read lexer.cursor
  return { lexer.push token with cursor, keyAllowed := false }

/-- Add a plain scalar. Behind a line break a key may follow it. -/
def plainScalar (lexer : Lexer) : Except Error Lexer := do
  let lexer ← lexer.saveCandidate
  let plain ← Scalar.plain lexer.inFlow (lexer.indent + 1) lexer.cursor
  return { lexer.push (.scalar (String.ofList plain.text) true) with
    cursor := plain.cursor
    keyAllowed := plain.broken }

/-- Add a block scalar, behind which a key may follow. -/
def blockScalar (lexer : Lexer) (folded : Bool) : Except Error Lexer := do
  let lexer ← lexer.dropCandidate
  let (text, cursor) ← Scalar.block folded lexer.indent lexer.cursor
  return { lexer.push (.scalar (String.ofList text) false) with cursor, keyAllowed := true }

/-- Whether a plain scalar starts with a character, given what follows it. -/
def startsPlain (flow : Bool) (c : Char) (rest : List Char) : Bool :=
  !("-?:,[]\x7b\x7d#&*!|>'\"%@`".toList.contains c || isSpace c || isBreak c)
    || (c == '-' && !rest.head?.any isSpace)
    || (!flow && (c == '?' || c == ':') && !startsBlank rest)

/-- Read the next token. -/
def next (lexer : Lexer) (c : Char) (rest : List Char) : Except Error Lexer :=
  let quoted (cursor : Cursor) : Except Error (Token × Cursor) := do
    let (text, behind) ← Scalar.quoted c cursor
    return (.scalar (String.ofList text) false, behind)
  let named (token : String → Token) (cursor : Cursor) : Except Error (Token × Cursor) := do
    let (name, behind) ← Property.name cursor
    return (token name, behind)
  let indicated := lexer.inFlow || startsBlank rest
  if lexer.cursor.column == 0 && c == '%' then do
    let lexer ← lexer.leaveBlocks
    let (token, cursor) ← Property.directive lexer.cursor
    return { lexer.push token with cursor }
  else if lexer.cursor.atIndicator '-' then
    lexer.leaveBlocks.map (·.mark .documentStart 3)
  else if lexer.cursor.atIndicator '.' then
    lexer.leaveBlocks.map (·.mark .documentEnd 3)
  else if c == '[' then lexer.openFlow .flowSequenceStart
  else if c == '\x7b' then lexer.openFlow .flowMappingStart
  else if c == ']' then lexer.closeFlow .flowSequenceEnd
  else if c == '\x7d' then lexer.closeFlow .flowMappingEnd
  else if c == ',' then lexer.flowEntry
  else if c == '-' && startsBlank rest then lexer.blockEntry
  else if c == '?' && indicated then lexer.explicitKey
  else if c == ':' && indicated then lexer.value
  else if c == '*' then lexer.content (named .alias)
  else if c == '&' then lexer.content (named .anchor)
  else if c == '!' then lexer.content (Property.tag lexer.inFlow)
  else if c == '|' && !lexer.inFlow then lexer.blockScalar false
  else if c == '>' && !lexer.inFlow then lexer.blockScalar true
  else if c == '\'' || c == '"' then lexer.content quoted
  else if startsPlain lexer.inFlow c rest then lexer.plainScalar
  else .error .unexpectedCharacter

/-- Read all tokens. -/
def run : Nat → Lexer → Except Error Lexer
  | 0, lexer => .ok lexer
  | fuel + 1, lexer => do
    let lexer := lexer.skipBlanks (lexer.cursor.rest.length + 1)
    let lexer ← lexer.dropStale
    match lexer.cursor.rest with
    | [] => lexer.leaveBlocks
    | c :: rest =>
      let lexer ← (lexer.unroll lexer.cursor.column).next c rest
      run fuel lexer

end Lexer

/-- The tokens of a text. Every step of the lexer passes a character, so there are no
more steps than characters, and one more to end the last block. -/
def Token.ofText? (text : List Char) : Except Error (List Token) := do
  let cursor ← Cursor.ofText text
  let lexer ← Lexer.run (cursor.rest.length + 1) { cursor }
  return lexer.tokens

end Papyrus.Yaml
