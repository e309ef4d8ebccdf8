import Papyrus.Proofs.Completion.General
import Papyrus.Proofs.Extraction.Parent
import Papyrus.Proofs.Indexer.Transparency
import Papyrus.Proofs.Inheritance.Parent

/-!
# The two kinds of request agree

A request for the members of a script and a general request are answered from different
things. The first walks along scripts and sees nothing but their members. The second finds the
parent of the edited script in its text, walks from there, and then goes through the symbols of
all files. Still they agree in two ways, in every state that an indexer can come to.

What a script inherits is the same to both. The general request gives the edited script what
the request for its members lists behind its own, if the script answers to its name and is not
among its own ancestors. This needs that a script in the index is the one that its file was
last read as, so that its parent is the one that the text names.

Whatever is offered as a member is offered in general. The members of a script are symbols of
its file, and of no script the script's own symbol is a member.
-/
namespace Papyrus

namespace Indexer

/-- An indexer knows files as they were when they were last parsed.

An action that reads nothing changes neither what is known nor what was parsed last, and a file
that is forgotten is not known, whatever it was parsed from. -/
theorem exists_reflects (extension : String) (actions : List Action) :
    ∃ known, ((new extension).carryOut indexFile actions).Reflects known ∧
      ∀ path file, known path = some file →
        (new extension).parsedFrom? actions path = some file.2 := by
  induction actions using List.reverseRecOn with
  | nil =>
    refine ⟨fun _ => none, new_reflects extension, ?_⟩
    intro path file isKnown
    exact absurd isKnown.symm (Option.some_ne_none file)
  | append_singleton actions action inductionHypothesis =>
    obtain ⟨known, reflects, parsed⟩ := inductionHypothesis
    simp only [carryOut_append, parsedFrom?_append]
    cases action with
    | forget above =>
      refine ⟨known.drop above, reflects.forget above, ?_⟩
      intro path file isKnown
      rw [Files.drop] at isKnown
      split at isKnown
      · exact absurd isKnown.symm (Option.some_ne_none file)
      · exact parsed path file isKnown
    | refresh source path =>
      let before := (new extension).carryOut indexFile actions
      by_cases read : ∃ file, source.Gives path file ∧ before.cache.isStale path file.1
      · obtain ⟨file, gives, stale⟩ := read
        refine ⟨known.learn path file, ?_, ?_⟩
        · rw [Action.apply, attempt_indexFile_of_gives gives, if_pos stale]
          exact reflects.absorb path file
        · intro other otherFile isKnown
          rw [Action.parsed?_of_stale gives stale]
          rw [Files.learn] at isKnown
          split at isKnown
          next same => rw [if_pos same, Option.some_or, Option.some.inj isKnown]
          next differs =>
            rw [if_neg differs, Option.none_or]
            exact parsed other otherFile isKnown
      · obtain ⟨unchanged, nothing⟩ := unchanged_of_not_read before fun file gives =>
          Bool.eq_false_iff.mpr fun stale => read ⟨file, gives, stale⟩
        refine ⟨known, ?_, ?_⟩
        · rw [Action.apply, unchanged]
          exact reflects
        · intro other otherFile isKnown
          rw [nothing, Option.none_or]
          exact parsed other otherFile isKnown

/-- The script of a file is the one of the text that the file was last parsed from. -/
theorem script_of_parsedFrom? {extension : String} {calls : List Call} {path : Path}
    {content : List UInt8} {script : Script}
    (parsed : (new extension).parsedFrom? ((new extension).actionsOf calls) path = some content)
    (declared : ((new extension).perform calls).index.scripts.find? path = some script) :
    (Extraction.ofFile path content).script = some script := by
  obtain ⟨known, reflects, last⟩ := exists_reflects extension ((new extension).actionsOf calls)
  rw [perform_eq_performBy, performBy, reflects.scripts] at declared
  obtain ⟨file, isKnown, found⟩ := Option.bind_eq_some_iff.mp declared
  rw [last path file isKnown, Option.some.injEq] at parsed
  rwa [← parsed]

end Indexer

namespace Completion

open Indexer

section Inherited

/-- A request that is not for the members of a script is a general one, with the parent that
the document names. -/
theorem detect_of_target? {preceding : List Char} (unqualified : Context.target? preceding = none)
    (document : List Char) :
    Context.detect preceding (some document) = .general (declaredParent document) := by
  rw [Context.detect, unqualified]
  rfl

/-- The members of a script that answers to its name are its own and then those of its parent,
if the script does not come up among its ancestors. -/
theorem members_eq_append {index : Index} (valid : index.Valid) {script : Script}
    (answers : index.script? script.name = some script) (named : script.name ≠ "")
    (absent : ∀ parent, script.parent = some parent →
      Script.key script.name ∉ (Inheritance.ancestry index parent).map Script.key) :
    Inheritance.members index script.name =
      script.members ++ parentMembers index script.parent := by
  rw [Inheritance.members, Inheritance.chain_eq_cons valid answers named absent,
    List.flatMap_cons]
  cases script.parent <;> rfl

/-- A general request gives the edited script what a request for its members lists behind its
own members, each name once and marked as inherited.

The script is the one that its file was last parsed as; it answers to its name, and does not
come up on the walk from its parent. -/
theorem general_request_inherits_what_members_add (extension : String) (calls : List Call)
    {path : Path} {content : List UInt8} {script : Script} {preceding : List Char}
    (parsed : (new extension).parsedFrom? ((new extension).actionsOf calls) path = some content)
    (declared : ((new extension).perform calls).index.scripts.find? path = some script)
    (answers : ((new extension).perform calls).index.script? script.name = some script)
    (absent : ∀ parent, script.parent = some parent → Script.key script.name ∉
      (Inheritance.ancestry ((new extension).perform calls).index parent).map Script.key)
    (unqualified : Context.target? preceding = none) :
    let index := ((new extension).perform calls).index
    let added := (Inheritance.members index script.name).drop script.members.length
    let first := (firstOccurrences added).map
      fun member => { member with detail := member.detail ++ " (inherited)" }
    Inheritance.members index script.name = script.members ++ added ∧
    ∃ parent, Context.detect preceding (some (Text.Utf8.decodeLossy content)) = .general parent ∧
      inherited index parent = first ∧
      ∀ files, queryOver index files (.general parent) =
        first ++ elsewhere (first.map (·.name)) files := by
  intro index added first
  have aligned : ((new extension).perform calls).Aligned := (new_aligned extension).perform calls
  have found := script_of_parsedFrom? parsed declared
  have named : script.name ≠ "" := (Extraction.describes_of_ofText found).named
  have whole : Inheritance.members index script.name =
      script.members ++ parentMembers index script.parent :=
    members_eq_append aligned.valid answers named absent
  have isAdded : added = parentMembers index script.parent := by
    change (Inheritance.members index script.name).drop script.members.length = _
    rw [whole, List.drop_left]
  have sameParent : script.parent = declaredParent (Text.Utf8.decodeLossy content) :=
    Extraction.parent_of_ofText found
  have isFirst : inherited index script.parent = first := by
    rw [inherited_eq_map, ← isAdded]
    rfl
  refine ⟨isAdded ▸ whole, script.parent, ?_, isFirst, ?_⟩
  · rw [detect_of_target? unqualified, sameParent]
  · intro files
    rw [← isFirst]
    rfl

/-- A text with two script lines, of which the last one counts. -/
def doorText : List UInt8 :=
  "ScriptName Gate extends Fence\nScriptName Door extends WALL\nFunction Open(".toUTF8.toList

/-- A scan of three files. The name of the second was that of the first before, and the second
extends the third, which extends itself. -/
def building : List Call :=
  let source : FileSource := {
    modified _ := .ok ⟨1⟩
    read path := .ok <|
      if path == ⟨"/r/Door.psc"⟩ then doorText
      else if path == ⟨"/r/Wall.psc"⟩ then
        "ScriptName Wall extends wall\nFunction Open(\nEvent OnFall(".toUTF8.toList
      else "ScriptName DOOR".toUTF8.toList
    walk _ := [.file ⟨"/r/Old.psc"⟩, .file ⟨"/r/Door.psc"⟩, .file ⟨"/r/Wall.psc"⟩] }
  [.indexRoots source [⟨"/r"⟩]]

/-- A door inherits two of the three members that are listed for it, from a wall whose own
ancestors go round in a circle. -/
theorem door_inherits_from_a_circular_wall :
    let index := ((new "psc").perform building).index
    let door : Script :=
      ⟨"Door", some "WALL", [⟨"Open", .function, "Function in Door", ""⟩], [], []⟩
    let added := (Inheritance.members index "Door").drop 1
    (new "psc").parsedFrom? ((new "psc").actionsOf building) ⟨"/r/Door.psc"⟩ = some doorText ∧
      index.scripts.find? ⟨"/r/Door.psc"⟩ = some door ∧ index.script? "Door" = some door ∧
      Script.key "Door" ∉ (Inheritance.ancestry index "WALL").map Script.key ∧
      added.length = 2 ∧
      ∃ parent, Context.detect "x = ".toList (some (Text.Utf8.decodeLossy doorText)) =
          .general parent ∧
        inherited index parent = (firstOccurrences added).map
          fun member => { member with detail := member.detail ++ " (inherited)" } := by
  intro index door added
  have parsed : (new "psc").parsedFrom? ((new "psc").actionsOf building) ⟨"/r/Door.psc"⟩ =
      some doorText := by decide +kernel
  obtain ⟨declared, answers, absent, two⟩ :
      index.scripts.find? ⟨"/r/Door.psc"⟩ = some door ∧ index.script? "Door" = some door ∧
      Script.key "Door" ∉ (Inheritance.ancestry index "WALL").map Script.key ∧
      added.length = 2 := by decide +kernel
  obtain ⟨_, parent, detected, inherits, _⟩ :=
    general_request_inherits_what_members_add "psc" building parsed declared answers
      (by rintro parent ⟨⟩; exact absent) (by decide : Context.target? "x = ".toList = none)
  exact ⟨parsed, declared, answers, absent, two, parent, detected, inherits⟩

end Inherited

section Offered

/-- Every member along a chain is a symbol of an indexed file, and not a script. -/
theorem exists_of_mem_members {indexer : Indexer} (aligned : indexer.Aligned) {target : String}
    {symbol : Symbol} (member : symbol ∈ Inheritance.members indexer.index target) :
    symbol.kind ≠ .script ∧ ∃ entry ∈ indexer.index.files.entries, symbol ∈ entry.2 := by
  obtain ⟨script, met, isMember⟩ := List.mem_flatMap.mp member
  obtain ⟨place, found⟩ := List.mem_iff_getElem?.mp met
  obtain ⟨_, key, _, answered⟩ := Inheritance.answers_of_getElem? found
  rw [Index.script?, Index.scriptAt?_eq] at answered
  obtain ⟨path, _, declared⟩ := Option.bind_eq_some_iff.mp answered
  obtain ⟨symbols, known⟩ : ∃ symbols, indexer.index.symbols? path = some symbols := by
    refine Option.ne_none_iff_exists'.mp fun unknown => ?_
    rw [aligned.valid.indexed path unknown] at declared
    exact absurd declared.symm (Option.some_ne_none script)
  have described := aligned.described path symbols script known declared
  rw [Script.members, described.functions, described.events, described.properties] at isMember
  simp only [Symbol.ofKind, List.mem_append, List.mem_filter, decide_eq_true_eq] at isMember
  obtain ⟨entry, listed, rfl⟩ := Option.map_eq_some_iff.mp known
  -- The kind is told by the list that the member stands in, and none of the three holds scripts.
  rcases isMember with (⟨inFile, isKind⟩ | ⟨inFile, isKind⟩) | ⟨inFile, isKind⟩
  all_goals exact ⟨by simp [isKind], entry, List.mem_of_find?_eq_some listed, inFile⟩

/-- The name of every symbol of a listed file is offered in general. -/
theorem mem_general_names {index : Index} {files : List (Path × List Symbol)}
    {file : Path × List Symbol} (listed : file ∈ files) {symbol : Symbol} (inFile : symbol ∈ file.2)
    (parent : Option String) :
    symbol.name ∈ (queryOver index (files.map (·.2)) (.general parent)).map (·.name) := by
  have inSome : (files.findSome? fun file => file.2.find? (·.name = symbol.name)).isSome := by
    rw [List.isSome_findSome?, List.any_eq_true]
    refine ⟨file, listed, ?_⟩
    rw [List.find?_isSome]
    exact ⟨symbol, inFile, by simp⟩
  rw [mem_names_iff, find?_general, Option.isSome_or, inSome, Bool.or_true]

/-- Whatever is offered as a member of a script is offered in general too, in every order of
the files and for every parent, and no script is offered as a member. -/
theorem members_are_offered_in_general (extension : String) (calls : List Call) (target : String)
    (parent : Option String) {files : List (Path × List Symbol)}
    (listed : files.Perm ((new extension).perform calls).index.files.entries) :
    let index := ((new extension).perform calls).index
    (∀ name ∈ (query index (.member target)).map (·.name),
      name ∈ (queryOver index (files.map (·.2)) (.general parent)).map (·.name)) ∧
    ∀ symbol ∈ query index (.member target), symbol.kind ≠ .script := by
  intro index
  have aligned : ((new extension).perform calls).Aligned := (new_aligned extension).perform calls
  refine ⟨?_, ?_⟩
  · intro name isName
    obtain ⟨symbol, member, rfl⟩ := List.mem_map.mp isName
    obtain ⟨_, file, inIndex, inFile⟩ := exists_of_mem_members aligned member
    exact mem_general_names (listed.mem_iff.mpr inIndex) inFile parent
  · intro symbol member
    exact (exists_of_mem_members aligned member).1

/-- The three members of the door are offered in general too, with the files in reverse and
where no script is edited. -/
theorem members_of_door_are_offered_in_general :
    let index := ((new "psc").perform building).index
    let files := index.files.entries.reverse
    files.Perm index.files.entries ∧ (query index (.member "door")).length = 3 ∧
      ∀ name ∈ (query index (.member "door")).map (·.name),
        name ∈ (queryOver index (files.map (·.2)) (.general none)).map (·.name) := by
  intro index files
  have listed : files.Perm index.files.entries := List.reverse_perm index.files.entries
  refine ⟨listed, by decide +kernel, ?_⟩
  exact (members_are_offered_in_general "psc" building "door" none listed).1

end Offered

end Completion
end Papyrus
