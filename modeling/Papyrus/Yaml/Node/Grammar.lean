import Papyrus.Yaml.Node
import Papyrus.Yaml.Token.Lexer

/-!
# From tokens to nodes

The grammar reads one document from a list of tokens. A key or a value, or an entry of a
sequence, may be missing, and then counts as an empty plain scalar.

Anchors are numbered by the count of names known when they are met, so an anchor that
uses a name again may share its number with the next new name. An alias stands for the
node that was given its number last.
-/
namespace Papyrus.Yaml.Grammar

/-- What is left to read, and the anchors met so far. -/
structure State where
  tokens : List Token
  /-- What tag handles stand for. -/
  handles : Table String String
  /-- The number of each anchor. -/
  numbers : Table String Nat := .empty
  /-- How many nodes were given an anchor. -/
  count : Nat := 0
  /-- Which of them each number belongs to. -/
  owners : Table Nat Nat := .empty
  /-- The nodes that were given an anchor, in the order in which they start. -/
  nodes : Table Nat Node := .empty

/-- Reading part of a document, which may fail. -/
abbrev Reader := StateT State (Except Error)

/-- The next token. -/
def peek? : Reader (Option Token) := do return (← get).tokens.head?

/-- Pass the next token. -/
def skip : Reader Unit := modify fun state => { state with tokens := state.tokens.drop 1 }

/-- Pass the next token if it is the given one, and say whether it was. -/
def accept (token : Token) : Reader Bool := do
  if (← peek?) == some token then
    skip
    return true
  else return false

/-- Pass the next token, which has to be the given one. -/
def expect (token : Token) : Reader Unit := do
  if !(← accept token) then throw .unexpectedToken

/-- Whether the next token is one of the given ones, or none is left. -/
def atAny (tokens : List Token) : Reader Bool := do
  match ← peek? with
  | none => return false
  | some token => return tokens.contains token

/-- Read an anchor, if there is one. -/
def anchor? : Reader (Option String) := do
  match ← peek? with
  | some (.anchor name) => skip; return some name
  | _ => return none

/-- Read a tag in full, if there is one. -/
def tag? : Reader (Option String) := do
  match ← peek? with
  | some (.tag handle suffix) =>
    skip
    if handle.isEmpty then return some suffix
    match (← get).handles.find? handle with
    | some expansion => return some (expansion ++ suffix)
    | none => throw .unknownHandle
  | _ => return none

/-- Read an anchor and a tag, in any order. -/
def properties : Reader (Option String × Option String) := do
  match ← anchor? with
  | some name => return (some name, ← tag?)
  | none =>
    let tag ← tag?
    return (← anchor?, tag)

/-- Number the node that starts here under its anchor, and give its place in the order
of such nodes. -/
def enroll : Option String → Reader (Option Nat)
  | none => return none
  | some name => do
    let state ← get
    let number := state.numbers.size
    set { state with
      numbers := state.numbers.insert name number
      owners := state.owners.insert number state.count
      count := state.count + 1 }
    return some state.count

/-- Keep a node that has an anchor. -/
def keep (place : Option Nat) (node : Node) : Reader Node := do
  match place with
  | none => return node
  | some place =>
    modify fun state => { state with nodes := state.nodes.insert place node }
    return node

mutual

/-- Read a node. Within brackets no block may start; as a key or a value, a sequence need
not be indented. -/
def node : Nat → (block : Bool) → (indentless : Bool) → Reader Node
  | 0, _, _ => throw .tooDeep
  | fuel + 1, block, indentless => do
    if let some (.alias name) ← peek? then
      skip
      match (← get).numbers.find? name with
      | some number => return .alias number
      | none => throw .unknownAnchor
    let (anchor, tag) ← properties
    let place ← enroll anchor
    match ← peek? with
    | some .blockEntry =>
      if indentless then keep place (.sequence (← looseEntries fuel))
      else if anchor.isSome || tag.isSome then keep place (.scalar tag true "")
      else throw .unexpectedToken
    | some (.scalar text plain) =>
      skip
      keep place (.scalar (if tag == some "!" then none else tag) plain text)
    | some .flowSequenceStart =>
      skip
      keep place (.sequence (← flowItems fuel true))
    | some .flowMappingStart =>
      skip
      keep place (.mapping (← flowEntries fuel true))
    | next =>
      if block && next == some .blockSequenceStart then
        skip
        keep place (.sequence (← blockItems fuel))
      else if block && next == some .blockMappingStart then
        skip
        keep place (.mapping (← blockEntries fuel))
      else if anchor.isSome || tag.isSome then keep place (.scalar tag true "")
      else throw .unexpectedToken

/-- Read a node, unless one of the given tokens shows that it is missing. -/
def nodeUnless : Nat → (ends : List Token) → (block : Bool) → (indentless : Bool) → Reader Node
  | 0, _, _, _ => throw .tooDeep
  | fuel + 1, ends, block, indentless => do
    if ← atAny ends then return .missing else node fuel block indentless

/-- Read the entries of a block sequence, up to its end. -/
def blockItems : Nat → Reader (List Node)
  | 0 => throw .tooDeep
  | fuel + 1 => do
    if ← accept .blockEntry then
      let item ← nodeUnless fuel [.blockEntry, .blockEnd] true false
      return item :: (← blockItems fuel)
    else
      expect .blockEnd
      return []

/-- Read the entries of a sequence that is not indented. -/
def looseEntries : Nat → Reader (List Node)
  | 0 => throw .tooDeep
  | fuel + 1 => do
    if ← accept .blockEntry then
      let item ← nodeUnless fuel [.blockEntry, .key, .value, .blockEnd] true false
      return item :: (← looseEntries fuel)
    else return []

/-- Read the entries of a block mapping, up to its end. -/
def blockEntries : Nat → Reader (List (Node × Node))
  | 0 => throw .tooDeep
  | fuel + 1 => do
    if ← accept .key then
      let key ← nodeUnless fuel [.key, .value, .blockEnd] true true
      let value ← blockValue fuel
      return (key, value) :: (← blockEntries fuel)
    else
      expect .blockEnd
      return []

/-- Read the value of an entry of a block mapping. -/
def blockValue : Nat → Reader Node
  | 0 => throw .tooDeep
  | fuel + 1 => do
    if ← accept .value then nodeUnless fuel [.key, .value, .blockEnd] true true
    else return .missing

/-- Read the items of a sequence in brackets. An item that starts with a key is a
mapping of one entry. -/
def flowItems : Nat → (first : Bool) → Reader (List Node)
  | 0, _ => throw .tooDeep
  | fuel + 1, first => do
    if ← accept .flowSequenceEnd then return []
    if !first then
      expect .flowEntry
      if ← accept .flowSequenceEnd then return []
    let item ←
      if ← accept .key then
        let key ← pairKey fuel
        let value ← flowValue fuel .flowSequenceEnd
        pure (.mapping [(key, value)])
      else node fuel false false
    return item :: (← flowItems fuel false)

/-- Read the key of a mapping of one entry. Where it is missing, the token that shows so
is passed as well. -/
def pairKey : Nat → Reader Node
  | 0 => throw .tooDeep
  | fuel + 1 => do
    if ← atAny [.value, .flowEntry, .flowSequenceEnd] then
      skip
      return .missing
    else node fuel false false

/-- Read a value in brackets, if there is one. -/
def flowValue : Nat → (closing : Token) → Reader Node
  | 0, _ => throw .tooDeep
  | fuel + 1, closing => do
    if ← accept .value then nodeUnless fuel [.flowEntry, closing] false false
    else return .missing

/-- Read the entries of a mapping in brackets. -/
def flowEntries : Nat → (first : Bool) → Reader (List (Node × Node))
  | 0, _ => throw .tooDeep
  | fuel + 1, first => do
    if ← accept .flowMappingEnd then return []
    if !first then
      expect .flowEntry
      if ← accept .flowMappingEnd then return []
    let entry ←
      if ← accept .key then
        let key ← nodeUnless fuel [.value, .flowEntry, .flowMappingEnd] false false
        let value ← flowValue fuel .flowMappingEnd
        pure (key, value)
      else
        let key ← node fuel false false
        pure (key, .missing)
    return entry :: (← flowEntries fuel false)

end

/-- Read the directives in front of a document. A version is given at most once, and each
handle is set at most once. -/
def directives : List Token → (version : Bool) → Table String String →
    Except Error (List Token × Table String String)
  | .version major minor :: rest, seen, handles =>
    if seen then .error .duplicateDirective
    else if major = 1 ∧ (minor = 1 ∨ minor = 2) then directives rest true handles
    else .error .incompatibleVersion
  | .tagHandle handle expansion :: rest, seen, handles =>
    if handles.contains handle then .error .duplicateDirective
    else directives rest seen (handles.insert handle expansion)
  | tokens, _, handles => .ok (tokens, handles)

/-- The handles that stand for something unless a directive sets them. -/
def withDefaults (handles : Table String String) : Table String String :=
  let add (handles : Table String String) (handle expansion : String) : Table String String :=
    if handles.contains handle then handles else handles.insert handle expansion
  add (add handles "!" "!") "!!" "tag:yaml.org,2002:"

/-- The document that a list of tokens holds: at most one. A document without a start
mark has a node; behind a start mark it may be missing. -/
def document (tokens : List Token) : Except Error Document := do
  if tokens.isEmpty then return ⟨none, .empty⟩
  let (rest, handles) ← directives tokens false .empty
  let isExplicit := rest.head? == some .documentStart
  if !isExplicit && rest.length < tokens.length then throw .unexpectedToken
  let content := if isExplicit then rest.drop 1 else rest
  let reading : Reader Node := do
    match ← peek? with
    | none | some .documentStart | some .documentEnd | some (.version ..)
    | some (.tagHandle ..) =>
      if isExplicit then return .missing else throw .unexpectedToken
    | _ => node (4 * content.length + 8) true false
  let (root, state) ← reading.run { tokens := content, handles := withDefaults handles }
  if (state.tokens.dropWhile (· == .documentEnd)).isEmpty then
    let anchors := state.owners.entries.foldl (fun anchors (number, place) =>
      match state.nodes.find? place with
      | some node => anchors.insert number node
      | none => anchors) Table.empty
    return ⟨some root, anchors⟩
  else throw .severalDocuments

end Papyrus.Yaml.Grammar

namespace Papyrus.Yaml

/-- The document that a text holds. -/
def Document.ofText? (text : List Char) : Except Error Document := do
  Grammar.document (← Token.ofText? text)

end Papyrus.Yaml
