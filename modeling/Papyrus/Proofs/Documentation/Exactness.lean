import Papyrus.Proofs.Extraction.Composition
import Papyrus.Text.Utf8

/-!
# What documents a declaration

Documentation is looked for from a declaration upwards. Here it is told without a search: of the
lines within reach, the nearest ones that are comments, as many as stand together, and the line on
top of these if it is a block. The text has the topmost line first.

It is told a second time by places. Lines are looked up by their places and the inside of a block
is cut out by octets, and each of these may fail: there may be no such line, and a cut may go
through a character or beyond the text. That an answer is always found says that none of this ever
happens, also for a place beyond the last line and for characters of several octets.
-/
namespace Papyrus

open Text

namespace Text.Utf8

/-- A text cut behind so many octets. A text with fewer octets cannot be cut there, and neither
can a character. -/
def cut? (octets : Nat) : List Char → Option (List Char × List Char)
  | [] => if octets = 0 then some ([], []) else none
  | c :: rest =>
    let size := (String.utf8EncodeChar c).length
    if octets = 0 then some ([], c :: rest)
    else if size ≤ octets then
      (cut? (octets - size) rest).map fun (front, back) => (c :: front, back)
    else none

/-- The part of a text from one octet up to another. -/
def slice? (text : List Char) (first last : Nat) : Option (List Char) :=
  (cut? last text).bind fun outer => (cut? first outer.1).map fun inner => inner.2

/-- A character has an octet at least. -/
theorem length_utf8EncodeChar_pos (c : Char) : 0 < (String.utf8EncodeChar c).length := by
  rw [String.length_utf8EncodeChar]
  exact c.utf8Size_pos

/-- A character goes in front with all its octets. -/
theorem length_encode_cons (c : Char) (rest : List Char) :
    (encode (c :: rest)).length = (String.utf8EncodeChar c).length + (encode rest).length := by
  rw [encode, List.flatMap_cons, List.length_append, ← encode]

/-- A text can be cut between any two of its characters, and nowhere else. -/
theorem cut?_eq_some_iff (octets : Nat) (text front back : List Char) :
    cut? octets text = some (front, back) ↔
      front ++ back = text ∧ (encode front).length = octets := by
  induction text generalizing octets front with
  | nil =>
    rw [cut?, List.append_eq_nil_iff]
    constructor
    · intro isCut
      split at isCut
      next none =>
        obtain ⟨rfl, rfl⟩ := Prod.mk.inj (Option.some.inj isCut)
        exact ⟨⟨rfl, rfl⟩, none.symm⟩
      next => exact absurd isCut (by simp)
    · rintro ⟨⟨rfl, rfl⟩, rfl⟩
      rfl
  | cons c rest inductionHypothesis =>
    constructor
    · intro isCut
      rw [cut?] at isCut
      split at isCut
      next none =>
        obtain ⟨rfl, rfl⟩ := Prod.mk.inj (Option.some.inj isCut)
        exact ⟨rfl, none.symm⟩
      next =>
        split at isCut
        next fits =>
          obtain ⟨⟨tail, behind⟩, isTail, same⟩ := Option.map_eq_some_iff.mp isCut
          obtain ⟨rfl, rfl⟩ := Prod.mk.inj same
          obtain ⟨rfl, size⟩ := (inductionHypothesis _ tail).mp isTail
          refine ⟨rfl, ?_⟩
          rw [length_encode_cons, size]
          omega
        next => exact absurd isCut (by simp)
    · rintro ⟨whole, rfl⟩
      cases front with
      | nil =>
        rw [List.nil_append] at whole
        rw [whole]
        rfl
      | cons first front =>
        obtain ⟨rfl, rfl⟩ := List.cons.inj whole
        have onward := (inductionHypothesis (encode front).length front).mpr ⟨rfl, rfl⟩
        have notInFront := length_utf8EncodeChar_pos first
        rw [length_encode_cons, cut?, if_neg (by omega), if_pos (by omega),
          Nat.add_sub_cancel_left, onward]
        rfl

/-- What stands between two parts of a text is found by the octets of the parts. -/
theorem slice?_append (front inside back : List Char) :
    slice? (front ++ inside ++ back) (encode front).length (encode (front ++ inside)).length =
      some inside := by
  have outer := (cut?_eq_some_iff _ _ (front ++ inside) back).mpr ⟨rfl, rfl⟩
  have inner := (cut?_eq_some_iff _ _ front inside).mpr ⟨rfl, rfl⟩
  rw [slice?, outer, Option.bind_some, inner, Option.map_some]

/-- The second octet of this text is the first of a character with two. -/
example : slice? "né".toList 1 2 = none ∧ slice? "né".toList 1 3 = some ['é'] := by decide

end Text.Utf8

namespace Documentation

section Lines

/-- Whether a line is a comment: blanks aside, it begins with a semicolon. -/
def isComment (line : List Char) : Bool :=
  (trim line).head? == some ';'

/-- The text of a comment: what stands behind its semicolon. -/
def commentText (line : List Char) : List Char :=
  trim (trim line).tail

/-- Whether a line is a block: blanks aside, it has a brace at each end, and not the same one. -/
def isBlock (line : List Char) : Bool :=
  2 ≤ (trim line).length && (trim line).head? == some '\x7b' && (trim line).getLast? == some '\x7d'

/-- The text of a block: what stands between its braces. -/
def blockText (line : List Char) : List Char :=
  trim (trim line).tail.dropLast

/-- A comment is found in a line that is one. -/
theorem comment?_eq_ite (line : List Char) :
    comment? line = if isComment line then some (commentText line) else none := by
  unfold comment? isComment commentText
  split
  next rest trimmed => simp [trimmed]
  next other =>
    rw [if_neg]
    intro opens
    obtain ⟨rest, trimmed⟩ := List.head?_eq_some_iff.mp (eq_of_beq opens)
    exact other rest trimmed

/-- A block is found in a line that is one. -/
theorem block?_eq_ite (line : List Char) :
    block? line = if isBlock line then some (blockText line) else none := by
  unfold block? isBlock blockText
  split
  next rest trimmed =>
    rw [trimmed]
    cases rest with
    | nil => rfl
    | cons c rest => simp [List.getLast?_cons]
  next other =>
    rw [if_neg]
    simp only [Bool.and_eq_true, beq_iff_eq]
    rintro ⟨⟨_, opens⟩, _⟩
    obtain ⟨rest, trimmed⟩ := List.head?_eq_some_iff.mp opens
    exact other rest trimmed

/-- A comment is no block. -/
theorem isBlock_of_isComment {line : List Char} (comment : isComment line) :
    isBlock line = false := by
  rw [isComment, beq_iff_eq] at comment
  simp [isBlock, comment]

/-- The lines that are gathered are the comments at the start, and the line behind them if it is a
block. -/
theorem gather_eq (above : List (List Char)) :
    gather above = (above.takeWhile isComment).map commentText ++
      (above[(above.takeWhile isComment).length]?.filter isBlock).toList.map blockText := by
  induction above with
  | nil => rfl
  | cons line above inductionHypothesis =>
    rw [gather, block?_eq_ite, comment?_eq_ite, List.takeWhile_cons]
    by_cases comment : isComment line
    · simp [comment, isBlock_of_isComment comment, inductionHypothesis]
    · by_cases block : isBlock line <;> simp [comment, block, Option.filter]

end Lines

section Places

/-- The comments above a place, found by looking up line after line, down to a stop. There is no
answer where a line is missing or cannot be cut. -/
def gatherAt? (lines : List (List Char)) (stop : Nat) : Nat → Option (List (List Char))
  | 0 => some []
  | place + 1 =>
    if place < stop then some []
    else
      lines[place]?.bind fun line =>
        let text := trim line
        let size := (Utf8.encode text).length
        if 2 ≤ size ∧ text.head? = some '\x7b' ∧ text.getLast? = some '\x7d' then
          (Utf8.slice? text 1 (size - 1)).map fun inside => [trim inside]
        else
          match comment? line with
          | some comment => (gatherAt? lines stop place).map (comment :: ·)
          | none => some []

/-- The documentation of a declaration on the given line, found by places. -/
def ofPlaces? (lines : List (List Char)) (line : Nat) : Option (List Char) :=
  (gatherAt? lines (line - reach) (min line lines.length)).map fun found =>
    ['\n'].intercalate found.reverse

/-- A block is told by its octets as well as by its characters. -/
theorem isBlock_iff (line : List Char) :
    isBlock line ↔ 2 ≤ (Utf8.encode (trim line)).length ∧
      (trim line).head? = some '\x7b' ∧ (trim line).getLast? = some '\x7d' := by
  simp only [isBlock, Bool.and_eq_true, decide_eq_true_eq, beq_iff_eq, and_assoc]
  refine and_congr_left fun ⟨opens, _⟩ => ?_
  obtain ⟨rest, trimmed⟩ := List.head?_eq_some_iff.mp opens
  rw [trimmed]
  cases rest with
  | nil => decide
  | cons c rest =>
    have positive := Utf8.length_utf8EncodeChar_pos c
    have opening : (String.utf8EncodeChar '\x7b').length = 1 := by decide
    rw [Utf8.length_encode_cons, Utf8.length_encode_cons, List.length_cons, List.length_cons]
    omega

/-- The inside of a block can be cut out by octets. -/
theorem slice?_of_isBlock {line : List Char} (block : isBlock line) :
    Utf8.slice? (trim line) 1 ((Utf8.encode (trim line)).length - 1) =
      some (trim line).tail.dropLast := by
  have found : (block? line).isSome := by simp [block?_eq_ite, block]
  obtain ⟨text, trimmed⟩ := (isSome_block?_iff line).mp found
  have cut := Utf8.slice?_append ['\x7b'] text ['\x7d']
  have size : (Utf8.encode (trim line)).length - 1 = (Utf8.encode (['\x7b'] ++ text)).length := by
    rw [trimmed, ← List.singleton_append, ← List.append_assoc, Utf8.encode, List.flatMap_append,
      List.length_append]
    rfl
  have opening : (Utf8.encode ['\x7b']).length = 1 := by decide
  rw [opening] at cut
  rw [size, trimmed, ← List.singleton_append, ← List.append_assoc, cut]
  simp

/-- One line of the search by places: it goes on above a comment, and ends with a block or with any
other line. -/
theorem gatherAt?_succ {lines : List (List Char)} {stop place : Nat} {line : List Char}
    (within : stop ≤ place) (isLine : lines[place]? = some line) :
    gatherAt? lines stop (place + 1) =
      if isBlock line then some [blockText line]
      else if isComment line then (gatherAt? lines stop place).map (commentText line :: ·)
      else some [] := by
  rw [gatherAt?, if_neg (Nat.not_lt.mpr within), isLine, Option.bind_some]
  simp only [← isBlock_iff]
  by_cases block : isBlock line
  · rw [if_pos block, if_pos block, slice?_of_isBlock block]
    rfl
  · rw [if_neg block, if_neg block, comment?_eq_ite]
    by_cases comment : isComment line <;> simp [comment]

/-- The search by places finds what is gathered from the lines between the stop and the place. -/
theorem gatherAt?_eq (lines : List (List Char)) (stop : Nat) {place : Nat}
    (inside : place ≤ lines.length) :
    gatherAt? lines stop place = some (gather ((lines.take place).drop stop).reverse) := by
  induction place with
  | zero => simp [gatherAt?, gather]
  | succ place inductionHypothesis =>
    by_cases within : stop ≤ place
    · have isLine : lines[place]? = some lines[place] := List.getElem?_eq_getElem inside
      have taken : stop ≤ (lines.take place).length := by
        rw [List.length_take]
        omega
      rw [gatherAt?_succ within isLine, List.take_add_one, isLine, Option.toList_some,
        List.drop_append_of_le_length taken, List.reverse_append, List.reverse_singleton,
        List.singleton_append, gather, block?_eq_ite, comment?_eq_ite,
        inductionHypothesis (Nat.le_of_succ_le inside)]
      by_cases block : isBlock lines[place]
      · simp [block]
      · by_cases comment : isComment lines[place] <;> simp [block, comment]
    · have nothing : (lines.take (place + 1)).drop stop = [] := by
        rw [List.drop_eq_nil_iff, List.length_take]
        omega
      rw [gatherAt?, if_pos (Nat.lt_of_not_le within), nothing]
      rfl

/-- Of the lines within reach of a place, those that exist are looked at. -/
theorem window_eq_extract (lines : List (List Char)) (place : Nat) :
    window lines place = (lines.extract (place - 4) (min place lines.length)).reverse := by
  rw [window, List.drop_take, List.extract, reach, List.take_eq_take_iff.mpr]
  rw [List.length_drop]
  omega

/-- The search by places always has an answer, and it is the documentation. -/
theorem ofPlaces?_eq (lines : List (List Char)) (place : Nat) :
    ofPlaces? lines place = some (ofLines lines place) := by
  have existing : lines.take (min place lines.length) = lines.take place := by
    rw [List.take_eq_take_iff]
    omega
  rw [ofPlaces?, gatherAt?_eq lines _ (Nat.min_le_right place lines.length), existing, ← window,
    Option.map_some, ofLines_eq_intercalate]

/-- Lines that agree within reach of a place are the same to it. -/
theorem window_congr {lines others : List (List Char)} {place : Nat}
    (agree : ∀ index, place - 4 ≤ index → index < place → others[index]? = lines[index]?) :
    window others place = window lines place := by
  rw [window, window, List.reverse_inj]
  refine List.ext_getElem? fun index => ?_
  rw [List.getElem?_drop, List.getElem?_drop, List.getElem?_take, List.getElem?_take]
  split
  next inside => exact agree _ (Nat.le_add_right _ index) inside
  next => rfl

end Places

/-- The documentation of a declaration is exact, and it is found without looking anywhere that does
not exist, for all lines and every place.

Of the at most four lines above the place it gives the comments right above it, and the line on top
of them if that is a block. The topmost comes first, each is given without its marks and the blanks
around it, and nothing else is given. No other line has a part in it. -/
theorem documentation_is_exact (lines : List (List Char)) (place : Nat) :
    let above := (lines.extract (place - 4) (min place lines.length)).reverse
    let comments := above.takeWhile isComment
    let block := above[comments.length]?.filter isBlock
    ofPlaces? lines place = some (ofLines lines place) ∧
    ofLines lines place = ['\n'].intercalate
      (block.toList.map blockText ++ (comments.map commentText).reverse) ∧
    above.length ≤ 4 ∧
    ∀ others : List (List Char),
      (∀ index, place - 4 ≤ index → index < place → others[index]? = lines[index]?) →
        ofLines others place = ofLines lines place := by
  intro above comments block
  have isWindow : window lines place = above := window_eq_extract lines place
  refine ⟨ofPlaces?_eq lines place, ?_, ?_, ?_⟩
  · have single : (block.toList.map blockText).reverse = block.toList.map blockText := by
      cases block <;> rfl
    rw [ofLines_eq_intercalate, isWindow, gather_eq, List.reverse_append, single]
  · rw [← isWindow]
    exact length_window_le lines place
  · intro others agree
    rw [ofLines, ofLines, window_congr agree]

/-- Three comments, one of them empty, below a block with a character of two octets. The line on top
of the block is out of reach, and so is the declaration itself. -/
theorem documentation_of_a_block_and_three_comments :
    let lines := ["; far", "\x7b né\x7d ", ";", "\t; a ", ";b", "Event E("].map String.toList
    let others := ["ScriptName S", "\x7b né\x7d ", ";", "\t; a ", ";b"].map String.toList
    (∀ index, 5 - 4 ≤ index → index < 5 → others[index]? = lines[index]?) ∧
      ofPlaces? lines 5 = some "né\n\na\nb".toList ∧ ofLines others 5 = "né\n\na\nb".toList := by
  intro lines others
  have agree : ∀ index, 5 - 4 ≤ index → index < 5 → others[index]? = lines[index]? := by
    intro index beyond inside
    interval_cases index <;> rfl
  have given : ofLines lines 5 = "né\n\na\nb".toList := by decide
  obtain ⟨found, _, _, same⟩ := documentation_is_exact lines 5
  rw [given] at found
  exact ⟨agree, found, (same others agree).trans given⟩

end Documentation
end Papyrus
