import Papyrus.Path
import Papyrus.Text.Hex
import Papyrus.Text.Utf8

/-!
# Addresses of documents

A document is named by an absolute URL. Two spellings of an address are the same
document when they are written alike once read: scheme and host are in lower case, `.`
and `..` are worked out, and characters that need it are escaped. Escapes that are there
stay as they are.

An address leads to a file by its path, with all escapes replaced. Its scheme is not looked
at. It must have no host, an empty one or `localhost`, and a path that is made of segments. The
octets of the file's path are found exactly. As paths are Unicode texts here, octets that are
not UTF-8 are then read as replacement characters: an address with such octets is taken for one
of another file.
-/
namespace Papyrus

/-- The path of an address: a text that is not looked into, or segments. -/
inductive Url.Location where
  | verbatim (text : List Char)
  | segments (segments : List (List Char))
  deriving DecidableEq, Repr

/-- Where the server of an address is. The host is empty for files. -/
structure Url.Authority where
  user : List Char
  host : List Char
  port : List Char
  deriving DecidableEq, Repr

/-- An address by its parts. -/
structure Url where
  scheme : List Char
  authority : Option Url.Authority
  location : Url.Location
  query : Option (List Char)
  fragment : Option (List Char)
  deriving DecidableEq, Repr

namespace Url

/-- Control characters and everything outside ASCII. -/
def isControl (c : Char) : Bool := c.toNat < 0x20 || 0x7E < c.toNat

/-- The characters that are escaped in fragments. -/
def inFragment (c : Char) : Bool := isControl c || " \"<>`".toList.contains c

/-- The characters that are escaped in paths. -/
def inPath (c : Char) : Bool := inFragment c || "#?\x7b\x7d".toList.contains c

/-- The characters that are escaped in names of users. -/
def inUser (c : Char) : Bool := inPath c || "/:;=@[\\]^|".toList.contains c

/-- The characters that are escaped in queries. -/
def inQuery (special : Bool) (c : Char) : Bool :=
  isControl c || " \"#<>".toList.contains c || (special && c == '\'')

/-- An octet as an escape. -/
def escapeOctet (octet : UInt8) : List Char :=
  let digit (value : Nat) : Char := ("0123456789ABCDEF".toList[value]?).getD '0'
  ['%', digit (octet.toNat / 16), digit (octet.toNat % 16)]

/-- Escape the characters of a kind. -/
def escape (kind : Char → Bool) (text : List Char) : List Char :=
  text.flatMap fun c =>
    if kind c then (Text.Utf8.encode [c]).flatMap escapeOctet else [c]

/-- The octets of a text, with its escapes replaced. -/
def unescape : List Char → List UInt8
  | '%' :: high :: low :: rest =>
    match Text.hexDigit? high, Text.hexDigit? low with
    | some a, some b => UInt8.ofNat (a * 16 + b) :: unescape rest
    | _, _ => Text.Utf8.encode ['%'] ++ unescape (high :: low :: rest)
  | c :: rest => Text.Utf8.encode [c] ++ unescape rest
  | [] => []

/-- The schemes whose addresses always have a host and a path, with the port that goes
without saying. -/
def specialPort? (scheme : List Char) : Option (List Char) :=
  [("http", "80"), ("https", "443"), ("ws", "80"), ("wss", "443"), ("ftp", "21"), ("file", "")]
    |>.lookup (String.ofList scheme) |>.map String.toList

/-- Whether a text is a letter and a colon, or a bar in its place. -/
def isDrive : List Char → Bool
  | [letter, mark] => letter.isAlpha && (mark == ':' || mark == '|')
  | _ => false

/-- A text as it is read: without control characters and spaces around it, and without
tabs and line breaks. -/
def cleaned (text : List Char) : List Char :=
  let isOuter (c : Char) : Bool := c.toNat ≤ 0x20
  ((text.dropWhile isOuter).reverse.dropWhile isOuter).reverse.filter fun c =>
    !(c == '\t' || c == '\n' || c == '\r')

/-- The scheme in front of a colon, in lower case, and what follows. -/
def scheme? (text : List Char) : Option (List Char × List Char) :=
  let isSchemeCharacter (c : Char) : Bool := c.isAlphanum || c == '+' || c == '-' || c == '.'
  let scheme := text.takeWhile isSchemeCharacter
  match scheme, text.drop scheme.length with
  | first :: _, ':' :: rest =>
    if first.isAlpha then some (scheme.map Char.toLower, rest) else none
  | _, _ => none

/-- A text up to a mark, and what follows the mark, where it has one. -/
def cut (mark : Char) (text : List Char) : List Char × Option (List Char) :=
  match text.dropWhile (· ≠ mark) with
  | _ :: rest => (text.takeWhile (· ≠ mark), some rest)
  | [] => (text, none)

/-- Whether a segment is a dot, which may be escaped. -/
def isDot (segment : List Char) : Bool :=
  ["." , "%2e"].contains (String.ofList (segment.map Char.toLower))

/-- Whether a segment is two dots, either of which may be escaped. -/
def isTwoDots (segment : List Char) : Bool :=
  ["..", ".%2e", "%2e.", "%2e%2e"].contains (String.ofList (segment.map Char.toLower))

/-- Segments without the last one. The drive of a file stays. -/
def shorten (isFile : Bool) (segments : List (List Char)) : List (List Char) :=
  match segments with
  | [segment] =>
    if isFile && isDrive segment && segment.getLast? == some ':' then [segment] else []
  | _ => segments.dropLast

/-- Work out the segments of a path, given those in front. -/
def resolve (isFile : Bool) (done : List (List Char)) : List (List Char) → List (List Char)
  | [] => done
  | segment :: rest =>
    if isTwoDots segment then
      let shorter := shorten isFile done
      resolve isFile (if rest.isEmpty then shorter ++ [[]] else shorter) rest
    else if isDot segment then
      resolve isFile (if rest.isEmpty then done ++ [[]] else done) rest
    else
      let segment :=
        if isFile && done.isEmpty && isDrive segment then segment.take 1 ++ [':']
        else escape inPath segment
      resolve isFile (done ++ [segment]) rest

/-- The segments of a path that starts with a slash or where a slash goes without
saying. -/
def segmentsOf (special isFile : Bool) (path : List Char) : List (List Char) :=
  let path := if special then path.map fun c => if c == '\\' then '/' else c else path
  let path := if path.head? == some '/' then path.drop 1 else path
  resolve isFile [] (path.splitOn '/')

/-- The characters that no host may have. -/
def isForbidden (c : Char) : Bool :=
  c.toNat ≤ 0x20 || c.toNat == 0x7F || "#/:<>?@[\\]^|%".toList.contains c

/-- The value of a part of a numerical host: decimal, octal or hexadecimal. -/
def hostNumber? (part : List Char) : Option Nat :=
  let (base, digits) : Nat × List Char :=
    match part with
    | '0' :: 'x' :: rest | '0' :: 'X' :: rest => (16, rest)
    | '0' :: second :: rest => (8, second :: rest)
    | other => (10, other)
  digits.foldlM (fun number c => do
    let digit ← Text.hexDigit? c
    if digit < base then some (number * base + digit) else none) 0

/-- A host whose last part is a number: four octets, of which the last part may cover
several. -/
def numericalHost? (parts : List (List Char)) : Option (List Char) := do
  let numbers ← parts.mapM fun part => if part.isEmpty then none else hostNumber? part
  let last ← numbers.getLast?
  let front := numbers.dropLast
  if 3 < front.length || front.any (255 < ·) || Nat.pow 256 (4 - front.length) ≤ last then none
  else
    let value := front.zipIdx.foldl (fun sum (number, place) => sum + number * Nat.pow 256 (3 - place)) last
    let octets := [value / 16777216, value / 65536 % 256, value / 256 % 256, value % 256]
    return ".".toList.intercalate (octets.map fun octet => (toString octet).toList)

/-- The host of an address, as it is written once read. -/
def host? (special : Bool) (text : List Char) : Option (List Char) :=
  match text with
  | '[' :: rest =>
    let inside := rest.dropLast
    if rest.getLast? == some ']' && inside.contains ':' &&
        inside.all (fun c => (Text.hexDigit? c).isSome || c == ':' || c == '.') then
      some ('[' :: inside.map Char.toLower ++ [']'])
    else none
  | _ =>
    if special then
      let name := (Text.Utf8.decodeLossy (unescape text)).map Char.toLower
      let parts := name.splitOn '.'
      let parts := if 1 < parts.length && parts.getLast? == some [] then parts.dropLast else parts
      if name.any isForbidden then none
      else
        match parts.getLast? with
        | some last =>
          if !last.isEmpty && (last.all Char.isDigit || (last.take 2 == ['0', 'x'] && (hostNumber? last).isSome))
          then numericalHost? parts
          else some name
        | none => some name
    else if text.any fun c => isForbidden c && c != '%' then none
    else some (escape isControl text)

/-- The port behind a host, unless it goes without saying. -/
def port? (usual : Option (List Char)) (text : List Char) : Option (List Char) :=
  if text.all Char.isDigit then
    let number := text.foldl (fun number c => number * 10 + (c.toNat - '0'.toNat)) 0
    if text.isEmpty then some []
    else if 65535 < number then none
    else
      let written := (toString number).toList
      some (if usual == some written then [] else written)
  else none

/-- The user in front of a host. -/
def userOf (text : List Char) : List Char :=
  match cut ':' text with
  | (name, some secret) =>
    if secret.isEmpty then escape inUser name
    else escape inUser name ++ ':' :: escape inUser secret
  | (name, none) => escape inUser name

/-- The authority that a text between slashes gives. -/
def authority? (usual : Option (List Char)) (text : List Char) : Option Authority := do
  let backwards := text.reverse
  let server := (backwards.takeWhile (· ≠ '@')).reverse
  let user := userOf (backwards.drop (server.length + 1)).reverse
  let name :=
    if server.head? == some '[' then server.takeWhile (· ≠ ']') ++ (server.dropWhile (· ≠ ']')).take 1
    else server.takeWhile (· ≠ ':')
  let port ← match server.drop name.length with
    | [] => some []
    | ':' :: rest => port? usual rest
    | _ => none
  if name.isEmpty && (usual.isSome || !user.isEmpty || !port.isEmpty) then none
  else
    let host ← host? usual.isSome name
    return { user, host, port }

/-- The authority and the path of an address of a file. -/
def fileParts? (text : List Char) : Option (Option Authority × Location) :=
  let path (text : List Char) : Location := .segments (segmentsOf true true text)
  let nowhere : Option Authority := some ⟨[], [], []⟩
  match text.map fun c => if c == '\\' then '/' else c with
  | '/' :: '/' :: rest =>
    let host := rest.takeWhile (· ≠ '/')
    if isDrive host then some (nowhere, path rest)
    else if host.isEmpty then some (nowhere, path rest)
    else do
      let name ← host? true host
      let name := if name == "localhost".toList then [] else name
      return (some ⟨[], name, []⟩, path (rest.drop host.length))
  | other => some (nowhere, path other)

/-- The authority and the path of an address with a special scheme. -/
def specialParts? (usual : List Char) (text : List Char) :
    Option (Option Authority × Location) := do
  let isSlash (c : Char) : Bool := c == '/' || c == '\\'
  let rest := text.dropWhile isSlash
  let server := rest.takeWhile fun c => !isSlash c
  let authority ← authority? (some usual) server
  return (some authority, .segments (segmentsOf true false (rest.drop server.length)))

/-- The authority and the path of any other address. -/
def otherParts? (text : List Char) : Option (Option Authority × Location) :=
  match text with
  | '/' :: '/' :: rest => do
    let server := rest.takeWhile (· ≠ '/')
    let authority ← authority? none server
    let path := rest.drop server.length
    return (some authority, .segments (if path.isEmpty then [] else segmentsOf false false path))
  | '/' :: _ => some (none, .segments (segmentsOf false false text))
  | _ => some (none, .verbatim (escape isControl text))

/-- The address that a text spells. -/
def ofText? (text : List Char) : Option Url := do
  let (scheme, rest) ← scheme? (cleaned text)
  let (rest, fragment) := cut '#' rest
  let (rest, query) := cut '?' rest
  let special := specialPort? scheme
  let (authority, location) ←
    match special with
    | some [] => fileParts? rest
    | some usual => specialParts? usual rest
    | none => otherParts? rest
  return {
    scheme, authority, location
    query := query.map (escape (inQuery special.isSome))
    fragment := fragment.map (escape inFragment) }

/-- The path of an address as text. -/
def Location.text : Location → List Char
  | .verbatim text => text
  | .segments parts => parts.flatMap ('/' :: ·)

/-- An authority as text, with the slashes in front. -/
def Authority.text (authority : Authority) : List Char :=
  "//".toList ++ (if authority.user.isEmpty then [] else authority.user ++ ['@']) ++
    authority.host ++ (if authority.port.isEmpty then [] else ':' :: authority.port)

/-- The spelling of an address. All spellings of one address give the same one. -/
def text (url : Url) : String :=
  let path := url.location.text
  let front := match url.authority with
    | some authority => authority.text
    | none => if path.take 2 == "//".toList then "/.".toList else []
  String.ofList (url.scheme ++ ':' :: front ++ path ++
    (url.query.map ('?' :: ·)).getD [] ++ (url.fragment.map ('#' :: ·)).getD [])

/-- Whether the file of an address can be on this machine. -/
def isLocal (url : Url) : Bool :=
  url.authority.all fun authority =>
    authority.host.isEmpty || authority.host == "localhost".toList

/-- Octets with a slash behind them, if they end like a drive and are no drive alone. -/
def closeDrive (octets : List UInt8) : List UInt8 :=
  match octets.reverse with
  | mark :: letter :: _ :: _ =>
    if isDrive [Char.ofUInt8 letter, Char.ofUInt8 mark] then octets ++ Text.Utf8.encode ['/']
    else octets
  | _ => octets

/-- The octets of the path of the file that an address leads to. -/
def fileOctets? (url : Url) : Option (List UInt8) :=
  match url.location with
  | .verbatim _ | .segments [] => none
  | .segments segments =>
    if url.isLocal then
      some (closeDrive (segments.flatMap fun segment => Text.Utf8.encode ['/'] ++ unescape segment))
    else none

/-- The path of the file that an address leads to. -/
def filePath? (url : Url) : Option Path :=
  url.fileOctets?.map fun octets => ⟨String.ofList (Text.Utf8.decodeLossy octets)⟩

end Url
end Papyrus
