import Papyrus.Proofs.Completion.LetterCase
import Papyrus.Proofs.Indexer.Action
import Papyrus.Proofs.Session.Documents

/-!
# The extension of source files

The settings of a workspace name the extension of its source files, and may name another one each
time the workspace is indexed. Dots in front are dropped at three places: where the settings are
read, where the extension is compared with the one in use, and where an indexer is made for it.

Two comparisons have to agree. One decides whether the indexer at hand is kept, the other which
files are sources. Both ignore letter case, so an indexer that is kept takes the same files for
sources as one made for the new spelling, and everything it knows stays a source. If one of them
were stricter, an index could hold files that nobody would bring up to date.
-/
namespace Papyrus

/-- Names are the same exactly if they differ in letter case alone. -/
theorem Text.sameName_iff (left right : String) : sameName left right ↔ Recased left right := by
  rw [sameName, beq_iff_eq]
  exact Script.key_eq_iff left right

/-- An extension without dots in front stays as it is. -/
theorem bareExtension_bareExtension (extension : String) :
    bareExtension (bareExtension extension) = bareExtension extension := by
  rw [bareExtension, bareExtension, String.toList_ofList, List.dropWhile_idempotent]

namespace Indexer

section Switch

variable (indexer : Indexer) (extension : String)

/-- The dots in front of an extension have no part in which indexer is used for it. -/
theorem forExtension_bareExtension :
    indexer.forExtension (bareExtension extension) = indexer.forExtension extension := by
  rw [forExtension, forExtension, new, new, bareExtension_bareExtension]

/-- An indexer is replaced if its extension is another one than the given one without dots. -/
theorem forExtension_of_not_recased
    (differs : ¬ Text.Recased indexer.extension (bareExtension extension)) :
    indexer.forExtension extension = new extension := by
  rw [← Text.sameName_iff] at differs
  exact if_neg differs

/-- An indexer is kept exactly if its extension is the given one without dots, up to letter case.
The one that takes its place otherwise cannot be mistaken for it, as it has another extension. -/
theorem forExtension_eq_self_iff : indexer.forExtension extension = indexer ↔
    Text.Recased indexer.extension (bareExtension extension) := by
  constructor
  · intro kept
    by_contra differs
    rw [forExtension_of_not_recased indexer extension differs] at kept
    refine differs ((Text.sameName_iff _ _).mp ?_)
    rw [← kept]
    exact beq_self_eq_true _
  · intro same
    exact if_pos ((Text.sameName_iff _ _).mpr same)

/-- The indexer used for an extension takes the same files for sources as one made for it,
whether it is kept or replaced. -/
theorem isSource_forExtension (path : Path) :
    (indexer.forExtension extension).isSource path = (new extension).isSource path := by
  rw [forExtension]
  split
  next same =>
    have sameFolded : Text.foldCase indexer.extension = Text.foldCase (bareExtension extension) :=
      eq_of_beq same
    simp only [isSource, Text.sameName, sameFolded, new]
  next => rfl

end Switch

/-- An indexer whose stores agree and hold sources alone, and whose extension has no dots in
front. -/
structure Fitting (indexer : Indexer) : Prop where
  aligned : indexer.Aligned
  bare : bareExtension indexer.extension = indexer.extension

/-- Requests leave the settings of an indexer. -/
theorem perform_sameSettings (indexer : Indexer) (calls : List Call) :
    SameSettings (indexer.perform calls) indexer := by
  rw [perform_eq_performBy]
  exact carryOut_sameSettings indexer (indexer.actionsOf calls)

namespace Fitting

/-- An indexer that knows no files is fitting. -/
theorem new (extension : String) : (Indexer.new extension).Fitting where
  aligned := new_aligned extension
  bare := bareExtension_bareExtension extension

variable {indexer : Indexer} (fitting : indexer.Fitting)

include fitting

/-- Requests keep an indexer fitting. -/
theorem perform (calls : List Call) : (indexer.perform calls).Fitting where
  aligned := fitting.aligned.perform calls
  bare := by rw [(perform_sameSettings indexer calls).extension, fitting.bare]

/-- The indexer used for an extension is fitting. -/
theorem forExtension (extension : String) : (indexer.forExtension extension).Fitting := by
  rw [Indexer.forExtension]
  split
  · exact fitting
  · exact .new extension

/-- Everything in the index or in the cache is a source. -/
theorem isSource_of_contains {path : Path} (known : indexer.index.files.contains path ∨
    indexer.cache.entries.contains path) : indexer.isSource path := by
  rw [fitting.aligned.contains_entries, or_self, Table.contains_eq_isSome] at known
  exact fitting.aligned.sources path known

end Fitting
end Indexer

namespace Session

/-- Every event keeps the indexer of a session fitting. -/
theorem Event.fitting_indexing (means : Means) (workspace : Option Path) {indexer : Indexer}
    (fitting : indexer.Fitting) (event : Event) :
    (event.indexing means workspace indexer).Fitting := by
  cases event with
  | opened url text => exact fitting
  | changed url texts => exact fitting
  | closed url => exact fitting
  | filesChanged source changes => exact fitting.perform _
  | indexWorkspace source =>
    cases workspace with
    | none => exact fitting
    | some directory => exact (fitting.forExtension _).perform _

/-- The indexer of a session is fitting after every run. -/
theorem fitting_run {session : Session} (fitting : session.indexer.Fitting)
    (events : List Event) : (session.run events).indexer.Fitting := by
  induction events generalizing session with
  | nil => exact fitting
  | cons event rest inductionHypothesis =>
    have next : (event.apply session).indexer.Fitting := by
      rw [Event.apply_eq]
      exact event.fitting_indexing session.means session.workspace fitting
    exact inductionHypothesis next

/-- Loading the configuration of a workspace uses the extension of its settings. -/
theorem indexer_prepareScan {session : Session} {directory : Path}
    (located : session.workspace = some directory) (source : FileSource) :
    (session.prepareScan source).2.indexer = session.indexer.forExtension
      (session.means.load source directory).2.extension := by
  rw [prepareScan, located]
  dsimp only
  rw [useExtension_eq, Settings.bareExtension, Indexer.forExtension_bareExtension]

/-- Indexing a workspace goes on with the indexer for the extension of its settings. -/
theorem indexer_indexWorkspace {session : Session} {directory : Path}
    (located : session.workspace = some directory) (source : FileSource) :
    ∃ calls, (session.indexWorkspace source).2.indexer =
      (session.prepareScan source).2.indexer.perform calls := by
  rw [indexWorkspace, prepareScan, located]
  dsimp only
  rw [scan_eq]
  exact ⟨_, rfl⟩

/-- The index keeps to the extension of source files in every run, whatever the settings say each
time they are loaded.

All paths in the index and in the cache are sources to the indexer. Once settings are applied, the
indexer takes the same files for sources as one made for their extension, and indexing the
workspace then does not change that. The indexer is kept as it is exactly if its extension and the
new one are the same without the dots in front and up to letter case; otherwise one that knows
nothing takes its place.

The settings may be loaded in any way. -/
theorem index_keeps_to_the_extension (means : Means) (workspace : Option Path)
    (events : List Event) :
    let session := ({ workspace, means } : Session).run events
    (∀ path, session.indexer.index.files.contains path ∨
      session.indexer.cache.entries.contains path → session.indexer.isSource path) ∧
    ∀ directory, workspace = some directory → ∀ source : FileSource,
      let extension := (means.load source directory).2.extension
      let applied := (session.prepareScan source).2.indexer
      let indexed := (session.indexWorkspace source).2.indexer
      let same := Text.Recased (bareExtension session.indexer.extension) (bareExtension extension)
      (∀ path, applied.isSource path = (Indexer.new extension).isSource path) ∧
      (∀ path, indexed.isSource path = (Indexer.new extension).isSource path) ∧
      (applied = session.indexer ↔ same) ∧
      (¬ same → applied =
        { extension := bareExtension extension, index := .empty, cache := .empty, parses := 0,
          scanning := false }) := by
  intro session
  have fitting : session.indexer.Fitting :=
    fitting_run (.new defaultExtension) events
  refine ⟨fun path => fitting.isSource_of_contains, ?_⟩
  intro directory located source extension applied indexed same
  have inPlace : session.workspace = some directory := by
    rw [← located]
    exact congrArg Session.workspace (run_eq { workspace, means } events)
  have given : session.means = means := congrArg Session.means (run_eq { workspace, means } events)
  have switched : applied = session.indexer.forExtension extension := by
    have loaded := indexer_prepareScan inPlace source
    rwa [given] at loaded
  have sources (path : Path) : applied.isSource path = (Indexer.new extension).isSource path := by
    rw [switched, Indexer.isSource_forExtension]
  have old : bareExtension session.indexer.extension = session.indexer.extension := fitting.bare
  refine ⟨sources, ?_, ?_, ?_⟩
  · intro path
    obtain ⟨calls, scanned⟩ := indexer_indexWorkspace inPlace source
    rw [← sources, ← (Indexer.perform_sameSettings applied calls).isSource_eq]
    exact congrArg (Indexer.isSource · path) scanned
  · rw [switched, Indexer.forExtension_eq_self_iff, ← old]
  · intro differs
    rw [switched, Indexer.forExtension_of_not_recased _ _ (old ▸ differs)]
    rfl

/-- A workspace with a settings file that names an extension, in which every other file holds a
function. -/
def pasture (extension : String) : FileSource where
  modified _ := .ok ⟨1⟩
  read path :=
    let text := if path == ⟨"/r/.scribe.toml"⟩ then "extension = \"" ++ extension ++ "\""
      else "Function Graze("
    .ok text.toUTF8.toList
  walk _ := []

/-- A file is indexed, the settings take another extension, and two files of the old and of the new
extension are created. -/
def moved : List Event :=
  [.filesChanged (pasture "psc") [(addressOf "Sheep.psc", .created)],
    .indexWorkspace (pasture ".Pas"),
    .filesChanged (pasture ".Pas")
      [(addressOf "Lamb.pas", .created), (addressOf "Wolf.psc", .created)]]

/-- Of the three files the index holds the one that has the new extension. The indexer is kept when
the extension is spelled in another way, and makes room for an empty one when the old extension
comes back. -/
theorem index_follows_the_extension_there_and_back :
    let session := ({ workspace := some ⟨"/r"⟩ } : Session).run moved
    session.indexer.index.fileCount = 1 ∧
      session.indexer.index.files.contains ⟨"/r/Lamb.pas"⟩ ∧
      session.indexer.isSource ⟨"/r/Lamb.pas"⟩ ∧
      (session.prepareScan (pasture "..PAS")).2.indexer = session.indexer ∧
      (session.prepareScan (pasture "psc")).2.indexer = Indexer.new "psc" := by
  intro session
  obtain ⟨sources, switch⟩ := index_keeps_to_the_extension {} (some ⟨"/r"⟩) moved
  have held : session.indexer.index.files.contains ⟨"/r/Lamb.pas"⟩ := by decide +kernel
  have old : bareExtension session.indexer.extension = "Pas" := by decide +kernel
  have respelled : (Configuration.load (pasture "..PAS") ⟨"/r"⟩).2.extension = "..PAS" := by
    decide +kernel
  have former : (Configuration.load (pasture "psc") ⟨"/r"⟩).2.extension = "psc" := by
    decide +kernel
  obtain ⟨_, _, kept, _⟩ := switch ⟨"/r"⟩ rfl (pasture "..PAS")
  obtain ⟨_, _, _, replaced⟩ := switch ⟨"/r"⟩ rfl (pasture "psc")
  refine ⟨by decide +kernel, held, sources _ (.inl held), kept.mpr ?_, (replaced ?_).trans ?_⟩
  · rw [old, respelled, ← Text.sameName_iff]
    decide
  · rw [old, former, ← Text.sameName_iff]
    decide
  · rw [former]
    rfl

end Session
end Papyrus
