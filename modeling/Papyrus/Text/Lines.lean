/-!
# Lines

A line ends at a line feed; one carriage return directly before the line feed
belongs to the line end. The text after the last line feed is a line only if it is
not empty, and a carriage return in it is an ordinary character.
-/
namespace Papyrus.Text

/-- Drop one carriage return at the end of a line. -/
def dropReturn (line : List Char) : List Char :=
  if line.getLast? = some '\r' then line.dropLast else line

/-- The lines of a text, where `current` holds the characters of the line being
read, the last one first. -/
def linesFrom (current : List Char) : List Char → List (List Char)
  | [] => if current.isEmpty then [] else [current.reverse]
  | c :: rest =>
    if c = '\n' then dropReturn current.reverse :: linesFrom [] rest
    else linesFrom (c :: current) rest

/-- The lines of a text, without their ends. -/
def lines (text : List Char) : List (List Char) :=
  linesFrom [] text

/-- The part of a line in front of a position. The column counts characters; a
column beyond the end stands for the end, and a line that does not exist is
empty. -/
def linePrefix (text : List Char) (line column : Nat) : List Char :=
  (((lines text)[line]?).getD []).take column

end Papyrus.Text
