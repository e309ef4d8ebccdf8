import Papyrus.Text.Blank

/-!
# Words and letter case

A word is a maximal run of ASCII letters, digits and underscores: the language's
identifiers and keywords. Letter case is folded for the ASCII letters only, so two
words are the same name exactly when they agree after folding.
-/
namespace Papyrus.Text

/-- Characters that an identifier is made of. -/
def isWord (c : Char) : Bool :=
  c.isAlphanum || c == '_'

/-- A leading word and the text after it; none where the text starts with some
other character. The word is maximal: what follows does not start with a word
character. -/
def word? (text : List Char) : Option (List Char × List Char) :=
  match text.takeWhile isWord with
  | [] => none
  | word => some (word, text.dropWhile isWord)

/-- Equality up to the case of ASCII letters. -/
def sameLetters (left right : List Char) : Bool :=
  left.map Char.toLower == right.map Char.toLower

/-- What follows a given keyword and the blanks after it. The keyword has to be
the whole leading word, in any letter case, and at least one blank follows. -/
def afterKeyword? (keyword : List Char) (text : List Char) : Option (List Char) :=
  match word? text with
  | some (word, rest) => if sameLetters word keyword then afterBlanks? rest else none
  | none => none

/-- A name with its ASCII letters in lower case: the form under which scripts are
looked up. -/
def foldCase (name : String) : String :=
  String.ofList (name.toList.map Char.toLower)

/-- Equality of names up to the case of ASCII letters. -/
def sameName (left right : String) : Bool :=
  foldCase left == foldCase right

end Papyrus.Text
