import Papyrus.Text.Blank

/-!
# Documentation comments

A declaration is documented by the comments directly above it: a run of `;` lines,
on top of which one line in braces may stand, or that line alone. Only the four
lines above the declaration are looked at. Text is given with the topmost line
first, although it is found from the bottom up.
-/
namespace Papyrus.Documentation

open Text

/-- How many lines above a declaration can document it. -/
def reach : Nat := 4

/-- The inside of a line that is a block in braces; a single brace is none. -/
def block? (line : List Char) : Option (List Char) :=
  match trim line with
  | '\x7b' :: rest => if rest.getLast? = some '\x7d' then some (trim rest.dropLast) else none
  | _ => none

/-- The text of a line that is a comment. -/
def comment? (line : List Char) : Option (List Char) :=
  match trim line with
  | ';' :: rest => some (trim rest)
  | _ => none

/-- The comments found when reading upwards, the lowest first. A block ends the
search, and so does a line that is no comment. -/
def gather : List (List Char) → List (List Char)
  | [] => []
  | line :: above =>
    match block? line, comment? line with
    | some text, _ => [text]
    | none, some text => text :: gather above
    | none, none => []

/-- The documentation found in the lines above a declaration, the nearest first. -/
def ofAbove (above : List (List Char)) : List Char :=
  ['\n'].intercalate (gather (above.take reach)).reverse

/-- The lines that can document a declaration on a given line, the nearest first. A
declaration beyond the last line still looks `reach` lines up from its own place. -/
def window (lines : List (List Char)) (line : Nat) : List (List Char) :=
  ((lines.take line).drop (line - reach)).reverse

/-- The documentation of a declaration on the given line. -/
def ofLines (lines : List (List Char)) (line : Nat) : List Char :=
  ofAbove (window lines line)

end Papyrus.Documentation
