import Papyrus.Text.Hex
import Papyrus.Yaml.Cursor

/-!
# Scalars

A scalar is written plain, in single or double quotes, or as an indented block. Within
plain and quoted scalars a line break counts as a space, and further empty lines as line
feeds. Each reader starts at a cursor and gives the text together with the cursor behind
it.
-/
namespace Papyrus.Yaml.Scalar

open Text (hexCharacter?)

/-- The blanks between two parts of a scalar: spaces, or line breaks with the spaces
around them dropped. -/
structure Gap where
  spaces : List Char := []
  /-- Whether the gap holds a line break. -/
  broken : Bool := false
  /-- The first line break. -/
  first : List Char := []
  /-- The line breaks after the first. -/
  more : List Char := []

/-- What a gap stands for within the text. -/
def Gap.text (gap : Gap) : List Char :=
  if gap.broken then
    if gap.first.head? == some '\n' then
      if gap.more.isEmpty then [' '] else gap.more
    else gap.first ++ gap.more
  else gap.spaces

/-- Read a gap. A tab is refused at the start of a line that is indented by less than
the given number of columns. -/
def gapFrom (indent : Int) : Nat → Gap → Cursor → Except Error (Gap × Cursor)
  | 0, gap, cursor => .ok (gap, cursor)
  | fuel + 1, gap, cursor =>
    match cursor.peek? with
    | none => .ok (gap, cursor)
    | some c =>
      if isSpace c then
        if gap.broken then
          if c == '\t' && cursor.column < indent then .error .unexpectedTab
          else gapFrom indent fuel gap (cursor.skip 1)
        else gapFrom indent fuel { gap with spaces := gap.spaces ++ [c] } (cursor.skip 1)
      else if isBreak c then
        let (text, behind) := cursor.passBreak
        if gap.broken then gapFrom indent fuel { gap with more := gap.more ++ text } behind
        else gapFrom indent fuel { broken := true, first := text } behind
      else .ok (gap, cursor)

/-- Read the gap at a cursor. -/
def gapAt (indent : Int) (gap : Gap) (cursor : Cursor) : Except Error (Gap × Cursor) :=
  gapFrom indent cursor.rest.length gap cursor

/-- The characters that end a plain scalar within brackets. -/
def isFlowIndicator (c : Char) : Bool :=
  c == ',' || c == '[' || c == ']' || c == '\x7b' || c == '\x7d'

/-- The characters of a plain scalar up to a blank or an indicator. -/
def plainRun (flow : Bool) : List Char → Except Error (List Char)
  | [] => .ok []
  | c :: rest =>
    if isSpace c || isBreak c then .ok []
    else if flow && c == ':' && rest.head?.any (fun d => isFlowIndicator d || d == '?') then
      .error .unexpectedCharacter
    else if c == ':' && startsBlank rest then .ok []
    else if flow && isFlowIndicator c then .ok []
    else (plainRun flow rest).map (c :: ·)

/-- A plain scalar, whether a line break follows it, and what is behind. -/
structure Plain where
  text : List Char
  broken : Bool
  cursor : Cursor

/-- Go on reading a plain scalar behind a gap. -/
def plainFrom (flow : Bool) (indent : Int) : Nat → List Char → Gap → Cursor → Except Error Plain
  | 0, text, gap, cursor => .ok ⟨text, gap.broken, cursor⟩
  | fuel + 1, text, gap, cursor => do
    if cursor.atDocumentIndicator || cursor.peek? == some '#' then
      return ⟨text, gap.broken, cursor⟩
    let run ← plainRun flow cursor.rest
    if run.isEmpty then return ⟨text, gap.broken, cursor⟩
    let text := text ++ gap.text ++ run
    let cursor := cursor.skip run.length
    if !cursor.rest.head?.any fun c => isSpace c || isBreak c then
      return ⟨text, false, cursor⟩
    let (gap, cursor) ← gapAt indent {} cursor
    if !flow && cursor.column < indent then return ⟨text, gap.broken, cursor⟩
    plainFrom flow indent fuel text gap cursor

/-- Read a plain scalar. Outside brackets it has to be indented by the given number of
columns on every line but the first. -/
def plain (flow : Bool) (indent : Int) (cursor : Cursor) : Except Error Plain :=
  plainFrom flow indent (cursor.rest.length + 1) [] {} cursor

/-- The character for an escape behind a backslash, and how long the escape is. -/
def escape? : List Char → Option (Char × Nat)
  | [] => none
  | c :: rest =>
    match c with
    | '0' => some ('\x00', 1)
    | 'a' => some ('\x07', 1)
    | 'b' => some ('\x08', 1)
    | 't' | '\t' => some ('\t', 1)
    | 'n' => some ('\n', 1)
    | 'v' => some ('\x0b', 1)
    | 'f' => some ('\x0c', 1)
    | 'r' => some ('\r', 1)
    | 'e' => some ('\x1b', 1)
    | ' ' => some (' ', 1)
    | '"' => some ('"', 1)
    | '/' => some ('/', 1)
    | '\\' => some ('\\', 1)
    | 'N' => some ('\x85', 1)
    | '_' => some ('\xa0', 1)
    | 'L' => some ('\u2028', 1)
    | 'P' => some ('\u2029', 1)
    | 'x' => (hexCharacter? 2 rest).map (·, 3)
    | 'u' => (hexCharacter? 4 rest).map (·, 5)
    | 'U' => (hexCharacter? 8 rest).map (·, 9)
    | _ => none

/-- Go on reading a quoted scalar, of which the text read so far is given backwards. -/
def quotedFrom (quote : Char) : Nat → List Char → Cursor → Except Error (List Char × Cursor)
  | 0, _, _ => .error .unexpectedEnd
  | fuel + 1, backwards, cursor => do
    if cursor.atDocumentIndicator then throw .documentInside
    match cursor.rest with
    | [] => throw .unexpectedEnd
    | c :: rest =>
      if isSpace c || isBreak c then
        let (gap, cursor) ← gapAt 0 {} cursor
        quotedFrom quote fuel (gap.text.reverse ++ backwards) cursor
      else if c == quote then
        if quote == '\'' && rest.head? == some '\'' then
          quotedFrom quote fuel ('\'' :: backwards) (cursor.skip 2)
        else return (backwards.reverse, cursor.skip 1)
      else if quote == '"' && c == '\\' then
        if rest.head?.any isBreak then
          let (gap, cursor) ← gapAt 0 { broken := true } (cursor.skip 1).passBreak.2
          quotedFrom quote fuel (gap.text.reverse ++ backwards) cursor
        else
          match escape? rest with
          | some (character, length) =>
            quotedFrom quote fuel (character :: backwards) (cursor.skip (1 + length))
          | none => throw .badEscape
      else quotedFrom quote fuel (c :: backwards) (cursor.skip 1)

/-- Read a scalar in quotes, of which the cursor is at the first. -/
def quoted (quote : Char) (cursor : Cursor) : Except Error (List Char × Cursor) :=
  quotedFrom quote (cursor.rest.length + 1) [] (cursor.skip 1)

/-- What happens to the line breaks at the end of a block. -/
inductive Chomping where
  /-- None is kept. -/
  | strip
  /-- One is kept. -/
  | clip
  /-- All are kept. -/
  | keep
  deriving DecidableEq, Repr

/-- The header of a block: its chomping, and its indentation where that is given. -/
structure BlockHeader where
  chomping : Chomping := .clip
  indent : Option Nat := none

/-- Read a block's header, in which chomping and indentation come in any order. -/
def blockHeader (cursor : Cursor) : Except Error (BlockHeader × Cursor) :=
  let chomping? : Option Char → Option Chomping
    | some '+' => some .keep
    | some '-' => some .strip
    | _ => none
  let digit? : Option Char → Option Nat
    | some c => if c.isDigit then some (c.toNat - '0'.toNat) else none
    | none => none
  let finish (header : BlockHeader) (cursor : Cursor) : Except Error (BlockHeader × Cursor) :=
    if header.indent == some 0 then .error .badBlockHeader
    else
      match cursor.finishLine? with
      | some behind => .ok (header, behind)
      | none => .error .badBlockHeader
  match chomping? cursor.peek? with
  | some chomping =>
    let cursor := cursor.skip 1
    match digit? cursor.peek? with
    | some indent => finish { chomping, indent } (cursor.skip 1)
    | none => finish { chomping } cursor
  | none =>
    match digit? cursor.peek? with
    | some indent =>
      let cursor := cursor.skip 1
      match chomping? cursor.peek? with
      | some chomping => finish { chomping, indent } (cursor.skip 1)
      | none => finish { indent } cursor
    | none => finish {} cursor

/-- Read the empty lines in front of a line of a block. The indentation is found here
where it is still open; then the deepest of the empty lines counts. -/
def blockBreaks (indent : Option Nat) : Nat → Nat → List Char → Cursor →
    Except Error (Nat × List Char × Cursor)
  | 0, deepest, breaks, cursor => .ok (deepest, breaks, cursor)
  | fuel + 1, deepest, breaks, cursor =>
    let spaces := cursor.rest.takeWhile (· == ' ')
    let count := match indent with
      | some indent => min spaces.length (indent - cursor.column)
      | none => spaces.length
    let cursor := cursor.skip count
    let deepest := max deepest cursor.column
    let inIndentation := indent.all (cursor.column < ·)
    if inIndentation && cursor.peek? == some '\t' then .error .unexpectedTab
    else if cursor.rest.head?.any isBreak then
      let (text, behind) := cursor.passBreak
      blockBreaks indent fuel deepest (breaks ++ text) behind
    else .ok (deepest, breaks, cursor)

/-- What has been read of a block. -/
structure Block where
  text : List Char := []
  /-- The line break behind the last line. -/
  lineBreak : List Char := []
  /-- The empty lines behind it. -/
  breaks : List Char
  /-- Whether the last line started with a blank. -/
  blank : Bool := false

/-- Read the lines of a block with a known indentation. In a folded block a line break
between two lines counts as a space unless one of them starts with a blank. -/
def blockLines (folded : Bool) (indent : Nat) : Nat → Block → Cursor → Except Error (Block × Cursor)
  | 0, block, cursor => .ok (block, cursor)
  | fuel + 1, block, cursor =>
    if cursor.column != indent || cursor.rest.isEmpty then .ok (block, cursor)
    else do
      let blank := cursor.rest.head?.any isSpace
      let joint :=
        if folded && block.lineBreak.head? == some '\n' && !block.blank && !blank then
          if block.breaks.isEmpty then [' '] else []
        else block.lineBreak
      let (line, cursor) := cursor.span fun c => !isBreak c
      let (lineBreak, cursor) := cursor.passBreak
      let (_, breaks, cursor) ← blockBreaks (some indent) (cursor.rest.length + 1) 0 [] cursor
      let text := block.text ++ joint ++ block.breaks ++ line
      blockLines folded indent fuel { text, lineBreak, breaks, blank } cursor

/-- Read a block scalar, of which the cursor is at the indicator. The parent's
indentation is given; a header's indentation counts from there. -/
def block (folded : Bool) (parent : Int) (cursor : Cursor) : Except Error (List Char × Cursor) := do
  let (header, cursor) ← blockHeader (cursor.skip 1)
  let given := header.indent.map fun increment => (max parent 0).toNat + increment
  let (deepest, breaks, cursor) ← blockBreaks given (cursor.rest.length + 1) 0 [] cursor
  let indent := given.getD (max (max deepest (parent + 1).toNat) 1)
  let (block, cursor) ← blockLines folded indent (cursor.rest.length + 1) { breaks } cursor
  let ending := match header.chomping with
    | .strip => []
    | .clip => block.lineBreak
    | .keep => block.lineBreak ++ block.breaks
  return (block.text ++ ending, cursor)

end Papyrus.Yaml.Scalar
