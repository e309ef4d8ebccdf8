import Papyrus.Disk
import Papyrus.Proofs.Path

/-!
# The places that paths name

A path that is absolute and has no `..` names a place by itself: its names, read from the
end, are the trail of the place. Empty pieces and `.` between slashes do not count. Such a
path names the same place on every disk; whether it also leads there depends on the disk.

Joining a name to a path names the entry of that name, however the path is spelled.
-/
namespace Papyrus

/-- The text of a component that is a name. -/
def Component.name? : Component → Option String
  | .name text => some text
  | .root | .here | .parent => none

/-- A path that is absolute and has no `..`. -/
def Path.IsPlain (path : Path) : Prop :=
  path.isAbsolute ∧ .parent ∉ path.components

/-- The place that a path names, if it is absolute and has no `..`. -/
def Path.trail? (path : Path) : Option Trail :=
  match path.components with
  | .root :: inner => (inner.mapM Component.name?).map List.reverse
  | _ => none

/-- What can be the name of an entry of a directory. -/
structure Disk.IsName (name : String) : Prop where
  nonempty : name ≠ ""
  notHere : name ≠ "."
  notParent : name ≠ ".."
  whole : '/' ∉ name.toList
  nulFree : '\x00' ∉ name.toList
  short : name.utf8ByteSize ≤ nameLimit

/-- The pieces of a path that count. -/
def Disk.namesOf (pieces : List String) : List String :=
  pieces.filter fun piece => piece ≠ "" ∧ piece ≠ "."

namespace Component

/-- The component that a piece stands for. -/
theorem ofPiece?_toList (piece : String) :
    ofPiece? piece.toList =
      if piece = "" ∨ piece = "." then none
      else if piece = ".." then some .parent
      else some (.name piece) := by
  have spelled (characters : List Char) : piece.toList = characters ↔
      piece = String.ofList characters := by
    constructor
    · rintro rfl
      exact String.ofList_toList.symm
    · rintro rfl
      exact String.toList_ofList
  unfold ofPiece?
  split
  next same => simp [(spelled _).mp same]
  next same => simp [(spelled _).mp same]
  next same => simp [(spelled _).mp same]
  next notEmpty notHere notParent =>
    have hasText : piece ≠ "" := fun same => notEmpty ((spelled _).mpr same)
    have notDot : piece ≠ "." := fun same => notHere ((spelled _).mpr same)
    have notDots : piece ≠ ".." := fun same => notParent ((spelled _).mpr same)
    simp [hasText, notDot, notDots, String.ofList_toList]

/-- Reading names off components succeeds exactly where all of them are names. -/
theorem mapM_name?_eq_some_iff (components : List Component) (names : List String) :
    components.mapM name? = some names ↔ components = names.map .name := by
  induction components generalizing names with
  | nil => cases names <;> simp
  | cons first rest inductionHypothesis =>
    rw [List.mapM_cons]
    cases first with
    | name text =>
      cases names with
      | nil => cases rest.mapM name? <;> simp [name?]
      | cons name others =>
        have tail := inductionHypothesis others
        cases read : rest.mapM name? <;> simp_all [name?]
    | root => cases names <;> simp [name?]
    | here => cases names <;> simp [name?]
    | parent => cases names <;> simp [name?]

end Component

namespace Disk

/-- Pieces stand for names alone exactly when none of them is `..`, and then for those
that count. -/
theorem filterMap_ofPiece?_eq_iff (pieces names : List String) :
    (pieces.filterMap fun piece => Component.ofPiece? piece.toList) = names.map .name ↔
      ".." ∉ pieces ∧ namesOf pieces = names := by
  induction pieces generalizing names with
  | nil => cases names <;> simp [namesOf]
  | cons piece rest inductionHypothesis =>
    rw [List.filterMap_cons, Component.ofPiece?_toList]
    by_cases skipped : piece = "" ∨ piece = "."
    · rcases skipped with rfl | rfl <;> simpa [namesOf] using inductionHypothesis names
    · obtain ⟨hasText, notHere⟩ := not_or.mp skipped
      by_cases isParent : piece = ".."
      · cases names <;> simp [isParent]
      · cases names with
        | nil => simp [isParent, namesOf, hasText, notHere]
        | cons name others =>
          have tail := inductionHypothesis others
          simp only [namesOf] at tail
          simp [isParent, namesOf, hasText, notHere, Ne.symm isParent, tail, and_left_comm]

/-- A piece holds characters of the text, but no slash. -/
theorem mem_of_mem_pieces {text piece : String} (member : piece ∈ pieces text) {c : Char}
    (inside : c ∈ piece.toList) : c ∈ text.toList ∧ c ≠ '/' := by
  have within (characters : List Char) : ∀ part ∈ characters.splitOn '/', ∀ c ∈ part,
      c ∈ characters ∧ c ≠ '/' := by
    induction characters with
    | nil => simp
    | cons first rest inductionHypothesis =>
      intro part isPart c isInside
      rw [List.splitOn_cons_eq_if_modifyHead] at isPart
      split at isPart
      next =>
        rcases List.mem_cons.mp isPart with rfl | isLater
        · exact absurd isInside List.not_mem_nil
        · have later := inductionHypothesis part isLater c isInside
          exact ⟨List.mem_cons_of_mem first later.1, later.2⟩
      next notSlash =>
        obtain ⟨head, others, split⟩ := List.exists_cons_of_ne_nil (List.splitOn_ne_nil '/' rest)
        rw [split] at isPart inductionHypothesis
        rcases List.mem_cons.mp isPart with rfl | isLater
        · rcases List.mem_cons.mp isInside with rfl | isInHead
          · exact ⟨List.mem_cons_self, by simpa using notSlash⟩
          · have earlier := inductionHypothesis head List.mem_cons_self c isInHead
            exact ⟨List.mem_cons_of_mem first earlier.1, earlier.2⟩
        · have later := inductionHypothesis part (List.mem_cons_of_mem head isLater) c isInside
          exact ⟨List.mem_cons_of_mem first later.1, later.2⟩
  obtain ⟨part, isPart, rfl⟩ := List.mem_map.mp member
  rw [String.toList_ofList] at inside
  exact within text.toList part isPart c inside

/-- Every character of a text other than a slash is in one of its pieces. -/
theorem exists_mem_pieces {text : String} {c : Char} (member : c ∈ text.toList)
    (notSlash : c ≠ '/') : ∃ piece ∈ pieces text, c ∈ piece.toList := by
  have covered (characters : List Char) (isInside : c ∈ characters) :
      ∃ part ∈ characters.splitOn '/', c ∈ part := by
    induction characters with
    | nil => exact absurd isInside List.not_mem_nil
    | cons first rest inductionHypothesis =>
      rw [List.splitOn_cons_eq_if_modifyHead]
      split
      next slash =>
        have isLater : c ∈ rest := by
          rcases List.mem_cons.mp isInside with same | isLater
          · exact absurd (same.trans (eq_of_beq slash)) notSlash
          · exact isLater
        obtain ⟨part, isPart, inPart⟩ := inductionHypothesis isLater
        exact ⟨part, List.mem_cons_of_mem _ isPart, inPart⟩
      next =>
        obtain ⟨head, others, split⟩ := List.exists_cons_of_ne_nil (List.splitOn_ne_nil '/' rest)
        rw [split] at inductionHypothesis ⊢
        rcases List.mem_cons.mp isInside with rfl | isLater
        · exact ⟨c :: head, List.mem_cons_self, List.mem_cons_self⟩
        · obtain ⟨part, isPart, inPart⟩ := inductionHypothesis isLater
          rcases List.mem_cons.mp isPart with rfl | isOther
          · exact ⟨first :: part, List.mem_cons_self, List.mem_cons_of_mem first inPart⟩
          · exact ⟨part, List.mem_cons_of_mem _ isOther, inPart⟩
  obtain ⟨part, isPart, inPart⟩ := covered text.toList member
  exact ⟨String.ofList part, List.mem_map_of_mem isPart, by rwa [String.toList_ofList]⟩

end Disk

namespace Path

/-- A path names a place when its components are the root and the names of the trail. -/
theorem trail?_eq_some_iff (path : Path) (trail : Trail) :
    path.trail? = some trail ↔ path.components = .root :: trail.reverse.map .name := by
  unfold trail?
  split
  next inner spelled =>
    rw [spelled, Option.map_eq_some_iff, List.cons.injEq]
    constructor
    · rintro ⟨names, read, rfl⟩
      rw [List.reverse_reverse]
      exact ⟨rfl, (Component.mapM_name?_eq_some_iff inner names).mp read⟩
    · rintro ⟨_, same⟩
      exact ⟨trail.reverse, (Component.mapM_name?_eq_some_iff inner _).mpr same,
        List.reverse_reverse trail⟩
  next notRooted =>
    constructor
    · exact fun impossible => absurd impossible.symm (Option.some_ne_none trail)
    · exact fun same => absurd same (notRooted _)

/-- Equal paths name the same place. -/
theorem trail?_congr {left right : Path} (same : left == right) : left.trail? = right.trail? := by
  rw [trail?, trail?, (beq_iff_components left right).mp same]

/-- Paths that name the same place are equal. -/
theorem beq_of_trail? {left right : Path} {trail : Trail} (leftNames : left.trail? = some trail)
    (rightNames : right.trail? = some trail) : left == right := by
  rw [beq_iff_components, (trail?_eq_some_iff left trail).mp leftNames,
    (trail?_eq_some_iff right trail).mp rightNames]

/-- One path lies at or below another when the trail of its place ends in the trail of the
other's. -/
theorem startsWith_iff_of_trail? {path above : Path} {trail aboveTrail : Trail}
    (names : path.trail? = some trail) (aboveNames : above.trail? = some aboveTrail) :
    path.startsWith above ↔ aboveTrail <:+ trail := by
  rw [startsWith_iff, (trail?_eq_some_iff path trail).mp names,
    (trail?_eq_some_iff above aboveTrail).mp aboveNames, List.prefix_cons_inj,
    List.prefix_map_iff_of_injective (fun _ _ same => Component.name.inj same),
    List.reverse_prefix]

/-- The components of an absolute path are the root and what its pieces stand for. -/
theorem components_of_isAbsolute {path : Path} (absolute : path.isAbsolute) :
    path.components = .root ::
      (Disk.pieces path.text).filterMap fun piece => Component.ofPiece? piece.toList := by
  unfold isAbsolute at absolute
  unfold components componentsOf Disk.pieces
  cases spelled : path.text.toList with
  | nil => simp [spelled] at absolute
  | cons first rest =>
    have slash : first = '/' := by simpa [spelled] using absolute
    simp only [slash, List.filterMap_map, Function.comp_def, String.toList_ofList]

/-- Only an absolute path starts with the root. -/
theorem isAbsolute_of_components {path : Path} {inner : List Component}
    (rooted : path.components = .root :: inner) : path.isAbsolute := by
  have noRoot (pieces : List (List Char)) : .root ∉ pieces.filterMap Component.ofPiece? := by
    intro member
    obtain ⟨piece, _, same⟩ := List.mem_filterMap.mp member
    unfold Component.ofPiece? at same
    split at same <;> simp at same
  unfold components componentsOf at rooted
  unfold isAbsolute
  split at rooted
  next spelled => simp [spelled]
  next => exact absurd rooted (by simp)
  next => exact absurd rooted (by simp)
  next =>
    exact absurd (rooted ▸ List.mem_cons_self) (noRoot _)

/-- A path is absolute when its first component is the root. -/
theorem isAbsolute_iff_components (path : Path) :
    path.isAbsolute ↔ ∃ inner, path.components = .root :: inner := by
  constructor
  · intro absolute
    exact ⟨_, components_of_isAbsolute absolute⟩
  · rintro ⟨inner, rooted⟩
    exact isAbsolute_of_components rooted

/-- A path names a place when it is absolute and none of its pieces is `..`; the trail is
made of the pieces that count. -/
theorem trail?_eq_some_iff_pieces (path : Path) (trail : Trail) :
    path.trail? = some trail ↔ path.isAbsolute ∧ ".." ∉ Disk.pieces path.text ∧
      (Disk.namesOf (Disk.pieces path.text)).reverse = trail := by
  rw [trail?_eq_some_iff]
  constructor
  · intro rooted
    have absolute := isAbsolute_of_components rooted
    rw [components_of_isAbsolute absolute, List.cons.injEq,
      Disk.filterMap_ofPiece?_eq_iff] at rooted
    exact ⟨absolute, rooted.2.1, by rw [rooted.2.2, List.reverse_reverse]⟩
  · rintro ⟨absolute, plain, rfl⟩
    rw [components_of_isAbsolute absolute, List.reverse_reverse,
      (Disk.filterMap_ofPiece?_eq_iff _ _).mpr ⟨plain, rfl⟩]

/-- A path names a place exactly when it is absolute and has no `..`. -/
theorem exists_trail?_iff (path : Path) :
    (∃ trail, path.trail? = some trail) ↔ path.IsPlain := by
  constructor
  · rintro ⟨trail, names⟩
    rw [trail?_eq_some_iff] at names
    refine ⟨isAbsolute_of_components names, ?_⟩
    rw [names]
    simp
  · rintro ⟨absolute, plain⟩
    refine ⟨_, (trail?_eq_some_iff_pieces path _).mpr ⟨absolute, ?_, rfl⟩⟩
    intro member
    apply plain
    rw [components_of_isAbsolute absolute]
    exact List.mem_cons_of_mem _ (List.mem_filterMap.mpr ⟨"..", member, by decide⟩)

/-- An absolute path has at least its slash. -/
theorem text_ne_empty_of_isAbsolute {path : Path} (absolute : path.isAbsolute) :
    path.text ≠ "" := by
  intro empty
  simp [isAbsolute, empty] at absolute

/-- Joining a name puts it behind a slash. If the path ends in a slash, no other one is
needed. -/
theorem text_join {path : Path} {name : String} (hasText : path.text ≠ "")
    (isName : Disk.IsName name) :
    ∃ front, (path.join ⟨name⟩).text.toList = front ++ '/' :: name.toList ∧
      (path.text.toList = front ∨ path.text.toList = front ++ ['/']) := by
  have nameRelative : isAbsolute ⟨name⟩ = false := by
    have noSlash := isName.whole
    unfold isAbsolute
    cases spelled : name.toList with
    | nil => rfl
    | cons first rest =>
      rw [spelled] at noSlash
      simpa using fun same : first = '/' => noSlash (same ▸ List.mem_cons_self)
  have notEmpty : path.text.isEmpty = false := by simpa using hasText
  unfold join
  simp only [nameRelative, notEmpty, Bool.false_or, Bool.false_eq_true, if_false]
  by_cases ends : path.text.toList.getLast? = some '/'
  · obtain ⟨front, spelled⟩ := List.getLast?_eq_some_iff.mp ends
    refine ⟨front, ?_, Or.inr spelled⟩
    simp [String.toList_append, spelled]
  · refine ⟨path.text.toList, ?_, Or.inl rfl⟩
    have slash : ("/" : String).toList = ['/'] := rfl
    simp [ends, String.toList_append, slash]

/-- Joining a name puts it behind the pieces of the path. A slash at the end of the path
gives an empty piece, which the name replaces. -/
theorem pieces_join {path : Path} {name : String} (hasText : path.text ≠ "")
    (isName : Disk.IsName name) :
    ∃ front, Disk.pieces (path.join ⟨name⟩).text = front ++ [name] ∧
      (Disk.pieces path.text = front ∨ Disk.pieces path.text = front ++ [""]) := by
  obtain ⟨front, joined, spelled⟩ := text_join hasText isName
  have onePiece : name.toList.splitOn '/' = [name.toList] := List.splitOn_eq_singleton isName.whole
  refine ⟨(front.splitOn '/').map String.ofList, ?_, ?_⟩
  · simp [Disk.pieces, joined, List.splitOn_append_cons_self, onePiece, String.ofList_toList]
  · rcases spelled with same | same <;> simp [Disk.pieces, same, List.splitOn_append_cons_self]

/-- Joining a name leaves a path absolute. -/
theorem isAbsolute_join {path : Path} {name : String} (absolute : path.isAbsolute) :
    (path.join ⟨name⟩).isAbsolute := by
  unfold join
  split
  · assumption
  · unfold isAbsolute at absolute ⊢
    cases spelled : path.text.toList with
    | nil => simp [spelled] at absolute
    | cons first rest =>
      rw [spelled] at absolute
      split <;> simpa [String.toList_append, spelled] using absolute

/-- Joining a name to a path that names a place names the entry of that name. -/
theorem trail?_join {path : Path} {name : String} {trail : Trail} (names : path.trail? = some trail)
    (isName : Disk.IsName name) : (path.join ⟨name⟩).trail? = some (name :: trail) := by
  obtain ⟨absolute, plain, counted⟩ := (trail?_eq_some_iff_pieces path trail).mp names
  obtain ⟨front, joined, spelled⟩ := pieces_join (text_ne_empty_of_isAbsolute absolute) isName
  have frontPlain : ".." ∉ front := by
    intro member
    rcases spelled with same | same
    · exact plain (same ▸ member)
    · exact plain (same ▸ List.mem_append_left _ member)
  have frontCounted : Disk.namesOf front = Disk.namesOf (Disk.pieces path.text) := by
    rcases spelled with same | same <;> simp [same, Disk.namesOf]
  refine (trail?_eq_some_iff_pieces _ _).mpr ⟨isAbsolute_join absolute, ?_, ?_⟩
  · rw [joined, List.mem_append, List.mem_singleton]
    exact not_or.mpr ⟨frontPlain, Ne.symm isName.notParent⟩
  · have kept : Disk.namesOf [name] = [name] := by
      simp [Disk.namesOf, isName.nonempty, isName.notHere]
    rw [joined, Disk.namesOf, List.filter_append, ← Disk.namesOf, ← Disk.namesOf, kept,
      frontCounted, List.reverse_append, counted]
    rfl

/-- A NUL in the spelling of a path is a NUL in one of its names. -/
theorem nul_mem_text_iff (path : Path) :
    '\x00' ∈ path.text.toList ↔
      ∃ name ∈ Disk.namesOf (Disk.pieces path.text), '\x00' ∈ name.toList := by
  constructor
  · intro member
    obtain ⟨piece, isPiece, inside⟩ := Disk.exists_mem_pieces member (by decide)
    refine ⟨piece, List.mem_filter.mpr ⟨isPiece, ?_⟩, inside⟩
    simp only [decide_eq_true_eq]
    constructor
    · rintro rfl
      exact absurd inside (by decide)
    · rintro rfl
      exact absurd inside (by decide)
  · rintro ⟨name, counted, inside⟩
    exact (Disk.mem_of_mem_pieces (List.mem_filter.mp counted).1 inside).1

/-- A path that names a place is spelled without a NUL if the names on the trail are. -/
theorem nul_not_mem_text {path : Path} {trail : Trail} (names : path.trail? = some trail)
    (nulFree : ∀ name ∈ trail, '\x00' ∉ name.toList) : '\x00' ∉ path.text.toList := by
  obtain ⟨_, _, counted⟩ := (trail?_eq_some_iff_pieces path trail).mp names
  rw [nul_mem_text_iff]
  rintro ⟨name, isName, inside⟩
  exact nulFree name (counted ▸ List.mem_reverse.mpr isName) inside

end Path
end Papyrus
