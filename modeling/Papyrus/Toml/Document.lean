import Papyrus.Toml.Quoted
import Papyrus.Toml.Scalar

/-!
# TOML documents

A document is a sequence of lines: a line gives a key its value, or opens a table by its
header, or is blank. Values in brackets and braces may go over several lines, and commas
may stand behind their last items.
-/
namespace Papyrus.Toml.Document

/-- Reading part of a text, which may fail. -/
abbrev Reader := StateT (List Char) (Except Error)

/-- What is left to read. -/
def rest : Reader (List Char) := get

/-- Pass the next character if it is the given one, and say whether it was. -/
def accept (c : Char) : Reader Bool := do
  match ← get with
  | d :: behind =>
    if c == d then
      set behind
      return true
    else return false
  | [] => return false

/-- Pass the next character, which has to be the given one. -/
def expect (c : Char) : Reader Unit := do
  if !(← accept c) then throw .unexpectedCharacter

/-- Pass blanks. -/
def blanks : Reader Unit :=
  modify (List.dropWhile fun c => c == ' ' || c == '\t')

/-- Read a part of the text by a function. -/
def reading {α : Type} (read : List Char → Except Error (α × List Char)) : Reader α := do
  let (result, behind) ← read (← get)
  set behind
  return result

/-- Pass a comment, if one starts here. -/
def comment : Reader Unit := do
  if ← accept '#' then
    let text ← get
    let behind := text.dropWhile Quoted.isPlain
    if behind.isEmpty || (Quoted.afterBreak? behind).isSome then set behind
    else throw .unexpectedCharacter

/-- Pass a line break, if one is here, and say whether there was. -/
def lineBreak : Reader Bool := do
  match Quoted.afterBreak? (← get) with
  | some behind =>
    set behind
    return true
  | none => return false

/-- Pass blanks, comments and line breaks. -/
def blankLines : Nat → Reader Unit
  | 0 => return
  | fuel + 1 => do
    blanks
    comment
    if ← lineBreak then blankLines fuel

/-- Pass all blanks, comments and line breaks that are here. -/
def anyBlankLines : Reader Unit := do blankLines ((← get).length + 1)

/-- Pass the end of a line, behind blanks and a comment. -/
def endOfLine : Reader Unit := do
  blanks
  comment
  if !(← lineBreak) && !(← get).isEmpty then throw .unexpectedCharacter

/-- The characters of a key without quotes. -/
def isKeyCharacter (c : Char) : Bool :=
  c.isAlphanum || c == '_' || c == '-'

/-- Read one key of a dotted key. -/
def simpleKey : Reader String := do
  match ← get with
  | '"' :: behind =>
    let (text, behind) ← Quoted.line '"' behind
    set behind
    return String.ofList text
  | '\'' :: behind =>
    let (text, behind) ← Quoted.line '\'' behind
    set behind
    return String.ofList text
  | text =>
    let word := text.takeWhile isKeyCharacter
    if word.isEmpty then throw .unexpectedCharacter
    set (text.drop word.length)
    return String.ofList word

/-- Read the keys behind the first of a dotted key. -/
def moreKeys : Nat → Reader (List String)
  | 0 => return []
  | fuel + 1 => do
    blanks
    if ← accept '.' then
      blanks
      let key ← simpleKey
      return key :: (← moreKeys fuel)
    else return []

/-- Read a dotted key: the keys in front, and the last one. -/
def key : Reader (List String × String) := do
  let first ← simpleKey
  let keys := first :: (← moreKeys ((← get).length + 1))
  return (keys.dropLast, keys.getLast?.getD first)

/-- How deep arrays and inline tables may be nested. -/
def depthLimit : Nat := 80

mutual

/-- Read a value, which may be nested so much deeper. -/
def value : Nat → (depth : Nat) → Reader Value
  | 0, _ => throw .tooDeep
  | fuel + 1, depth => do
    match ← get with
    | [] => throw .unexpectedEnd
    | c :: behind =>
      if c == '"' || c == '\'' then
        let (text, behind) ← Quoted.read c behind
        set behind
        return .text (String.ofList text)
      else if c == '[' then
        set behind
        if depth = 0 then throw .tooDeep
        return .array (← items fuel (depth - 1)) false
      else if c == '\x7b' then
        set behind
        if depth = 0 then throw .tooDeep
        let table ← entries fuel (depth - 1) ⟨.header, []⟩
        return .table .inline table.entries
      else reading Scalar.read

/-- Read the items of an array, up to its end. -/
def items : Nat → (depth : Nat) → Reader (List Value)
  | 0, _ => throw .tooDeep
  | fuel + 1, depth => do
    anyBlankLines
    if ← accept ']' then return []
    let item ← value fuel depth
    anyBlankLines
    if ← accept ',' then return item :: (← items fuel depth)
    expect ']'
    return [item]

/-- Read the entries of an inline table, up to its end. -/
def entries : Nat → (depth : Nat) → Builder → Reader Builder
  | 0, _, _ => throw .tooDeep
  | fuel + 1, depth, builder => do
    anyBlankLines
    if ← accept '\x7d' then return builder
    let (path, key) ← key
    blanks
    expect '='
    blanks
    let value ← value fuel depth
    let builder ← builder.define path key value
    anyBlankLines
    if ← accept ',' then entries fuel depth builder
    else
      expect '\x7d'
      return builder

end

/-- A document under construction: its tables, and the path of the table that was opened
last. -/
structure State where
  root : Builder := ⟨.header, []⟩
  opened : List String := []

/-- Read a header behind its opening brackets: the path of the table. -/
def header (closing : List Char) : Reader (List String × String) := do
  blanks
  let name ← key
  blanks
  closing.forM expect
  return name

/-- Read one line. -/
def line (state : State) : Reader State := do
  blanks
  match ← get with
  | [] => return state
  | '[' :: '[' :: behind =>
    set behind
    let (path, key) ← header [']', ']']
    endOfLine
    return { root := ← state.root.openArrayTable path key, opened := path ++ [key] }
  | '[' :: behind =>
    set behind
    let (path, key) ← header [']']
    endOfLine
    return { root := ← state.root.openTable path key, opened := path ++ [key] }
  | c :: _ =>
    if c == '#' || c == '\n' || c == '\r' then
      endOfLine
      return state
    else
      let (path, key) ← key
      blanks
      expect '='
      blanks
      let value ← value ((← get).length + 1) depthLimit
      endOfLine
      return { state with root := ← state.root.inOpened state.opened (Builder.define path key value) }

/-- Read all lines. -/
def lines : Nat → State → Reader State
  | 0, state => return state
  | fuel + 1, state => do
    if (← get).isEmpty then return state
    lines fuel (← line state)

/-- The table at the top of the document that a text holds. A byte order mark in front is
not part of the text. -/
def ofText? (text : List Char) : Except Error Builder := do
  let text := if text.head? == some '\ufeff' then text.drop 1 else text
  let (state, _) ← (lines (text.length + 1) {}).run text
  return state.root

end Papyrus.Toml.Document
