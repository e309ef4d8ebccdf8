/-!
# Replacing a pattern in a text

Occurrences are found from the left and do not overlap. What is put in their place is not
searched again.
-/
namespace Papyrus.Text

/-- A text with every occurrence of a pattern replaced. The pattern is not empty. -/
def replace (pattern replacement : List Char) (text : List Char) : List Char :=
  match text with
  | [] => []
  | c :: rest =>
    if pattern.isPrefixOf (c :: rest) then
      replacement ++ replace pattern replacement (rest.drop (pattern.length - 1))
    else c :: replace pattern replacement rest
  termination_by text.length
  decreasing_by
  · simp only [List.length_drop, List.length_cons]; omega
  · simp

end Papyrus.Text
