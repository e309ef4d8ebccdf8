/-!
# Paths

A path keeps the text it was built from, and is shown as that text. What it names is
its list of components: repeated and trailing slashes do not count, nor does a `.`,
except at the start of a relative path. `..` is a component like any other. Two
paths are equal, and one lies below another, by their components alone, so the
comparison `==` identifies different spellings.

The text of a path is Unicode. A name of a file that is not UTF-8 has no path here, although
a file system may hold one.
-/
namespace Papyrus

/-- A part of a path. -/
inductive Component where
  /-- The slash that an absolute path starts with. -/
  | root
  /-- The `.` that a relative path starts with. -/
  | here
  /-- `..` -/
  | parent
  /-- Any other name. -/
  | name (text : String)
  deriving DecidableEq, Repr

/-- A path as it is spelled. -/
structure Path where
  text : String
  deriving Repr

namespace Component

/-- The component that a piece between slashes stands for. -/
def ofPiece? (piece : List Char) : Option Component :=
  match piece with
  | [] | ['.'] => none
  | ['.', '.'] => some .parent
  | other => some (.name (String.ofList other))

end Component

namespace Path

/-- The components named by a spelling. -/
def componentsOf (text : List Char) : List Component :=
  let inner := (text.splitOn '/').filterMap Component.ofPiece?
  match text with
  | '/' :: _ => .root :: inner
  | ['.'] | '.' :: '/' :: _ => .here :: inner
  | _ => inner

/-- What a path names. -/
def components (path : Path) : List Component :=
  componentsOf path.text.toList

instance : BEq Path where
  beq left right := left.components == right.components

/-- Paths compare by what they name. -/
theorem beq_iff_components (left right : Path) :
    (left == right) = true ↔ left.components = right.components := by
  show (left.components == right.components) = true ↔ _
  simp

instance : EquivBEq Path where
  rfl := by simp [beq_iff_components]
  symm same := by simp_all [beq_iff_components]
  trans first second := by simp_all [beq_iff_components]

/-- Whether a path starts at the root. -/
def isAbsolute (path : Path) : Bool :=
  path.text.toList.head? == some '/'

/-- A path taken relative to a directory. An absolute path stays as it is; joining
the empty path leaves a slash at the end. -/
def join (directory path : Path) : Path :=
  if path.isAbsolute then path
  else if directory.text.isEmpty || directory.text.toList.getLast? == some '/' then
    ⟨directory.text ++ path.text⟩
  else ⟨directory.text ++ "/" ++ path.text⟩

/-- Whether a path is a given one or lies below it, by whole components. -/
def startsWith (path above : Path) : Bool :=
  above.components.isPrefixOf path.components

/-- The name of what a path leads to, where its last component is a name. -/
def fileName? (path : Path) : Option String :=
  match path.components.getLast? with
  | some (.name text) => some text
  | _ => none

/-- A file name as the part before its last dot and the part after it. A name has
no extension where its only dots are missing or stand at its start. -/
def splitExtension (name : String) : String × Option String :=
  let backwards := name.toList.reverse
  match backwards.dropWhile (· ≠ '.') with
  | '.' :: before =>
    if before.isEmpty then (name, none)
    else (String.ofList before.reverse,
      some (String.ofList (backwards.takeWhile (· ≠ '.')).reverse))
  | _ => (name, none)

/-- The file name without its extension. -/
def stem? (path : Path) : Option String :=
  path.fileName?.map fun name => (splitExtension name).1

/-- The extension of the file name, without its dot. -/
def extension? (path : Path) : Option String :=
  path.fileName?.bind fun name => (splitExtension name).2

end Path
end Papyrus
