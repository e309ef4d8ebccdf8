import Papyrus.Proofs.Indexer.Reflection
import Papyrus.Proofs.Indexer.Update

/-!
# Files that change under the reader

One indexer brings files up to date, one after the other, while somebody else writes, deletes
and creates files between any two of its steps. A file that is written after its time was
taken and before it is read leaves new content in the cache under an old time. That does no
harm: a path never has the same time twice, so the old time never comes back, and the next
update reads the file again.

What carries this is an invariant on every record of a time and a content that the indexer
holds. The path has had this time, and if it has it now, the content is what it holds now. A
record made of the content first and the time after it would not be like that.
-/
namespace Papyrus

/-- What a source says of some files is true. It may fail for any of them. -/
structure FileSource.Tells (source : FileSource) (files : Files) : Prop where
  time : ∀ {path modified}, source.modified path = .ok modified →
    ∃ content, files path = some (modified, content)
  text : ∀ {path content}, source.read path = .ok content →
    ∃ modified, files path = some (modified, content)

namespace Indexer

/-- A moment: the files as they are, and an indexer with what it is about. Two spellings of a
path lead to the same file. -/
structure Scene where
  files : Files
  respected : ∀ left right : Path, left == right → files left = files right
  indexer : Indexer
  update : Update

/-- The moment after the indexer's next step. -/
def Scene.advance (source : FileSource) (now : Scene) : Scene :=
  { now with
    indexer := (now.update.step source now.indexer).1
    update := (now.update.step source now.indexer).2 }

/-- Whether a path has had a time at one of some moments. -/
def HadTime (history : List Scene) (path : Path) (modified : Timestamp) : Prop :=
  ∃ scene ∈ history, ∃ content, scene.files path = some (modified, content)

/-- What may come next after some moments, of which the latest comes first: files are written,
deleted and created, with times that they have not had; an indexer that is done turns to
another file; or it takes a step. -/
inductive Follows (past : List Scene) (now : Scene) : Scene → Prop
  | edit (files : Files) (respected : ∀ left right : Path, left == right → files left = files right)
      (timely : ∀ path file, files path = some file →
        now.files path = some file ∨ ¬ HadTime (now :: past) path file.1) :
      Follows past now { now with files, respected }
  | call (path : Path) (idle : now.update.isFinished) :
      Follows past now { now with update := .stat path }
  | step (source : FileSource) (tells : source.Tells now.files) :
      Follows past now (now.advance source)

/-- The moments from a new indexer's first call on, the latest first. -/
inductive Course (extension : String) : List Scene → Prop
  | start (files : Files)
      (respected : ∀ left right : Path, left == right → files left = files right) (path : Path) :
      Course extension [⟨files, respected, new extension, .stat path⟩]
  | next {past : List Scene} {now next : Scene} (course : Course extension (now :: past))
      (follows : Follows past now next) : Course extension (next :: now :: past)

/-- A record of a path can be relied on: the path has had its time, and if it has it now, then
it holds the recorded content now. -/
structure Reliable (past : List Scene) (now : Scene) (path : Path)
    (file : Timestamp × List UInt8) : Prop where
  had : HadTime (now :: past) path file.1
  current : ∀ content, now.files path = some (file.1, content) → content = file.2

section History

variable {past : List Scene} {now next : Scene} {path : Path}

/-- Times that a path has had it will always have had. -/
theorem HadTime.later {history : List Scene} {modified : Timestamp}
    (had : HadTime history path modified) (scene : Scene) :
    HadTime (scene :: history) path modified := by
  obtain ⟨earlier, member, content, found⟩ := had
  exact ⟨earlier, List.mem_cons_of_mem scene member, content, found⟩

/-- Equal paths have had the same times. -/
theorem HadTime.congr {history : List Scene} {other : Path} {modified : Timestamp}
    (had : HadTime history path modified) (same : path == other) :
    HadTime history other modified := by
  obtain ⟨scene, member, content, found⟩ := had
  exact ⟨scene, member, content, (scene.respected path other same) ▸ found⟩

/-- A source tells times that paths have had. -/
theorem hadTime_of_tells {source : FileSource} (tells : source.Tells now.files)
    {modified : Timestamp} (timed : source.modified path = .ok modified) :
    HadTime (now :: past) path modified := by
  obtain ⟨content, found⟩ := tells.time timed
  exact ⟨now, List.mem_cons_self, content, found⟩

/-- A file that is at hand after a change was there before, or has a time that is new. -/
theorem Follows.files_cases (follows : Follows past now next) {file : Timestamp × List UInt8}
    (found : next.files path = some file) :
    now.files path = some file ∨ ¬ HadTime (now :: past) path file.1 := by
  cases follows with
  | edit files respected timely => exact timely path file found
  | call other idle => exact Or.inl found
  | step source tells => exact Or.inl found

/-- A record stays reliable whatever comes next: its time does not come back. -/
theorem Reliable.follows {file : Timestamp × List UInt8} (reliable : Reliable past now path file)
    (follows : Follows past now next) : Reliable (now :: past) next path file where
  had := reliable.had.later next
  current content found := by
    rcases follows.files_cases found with kept | new
    · exact reliable.current content kept
    · exact absurd reliable.had new

/-- Records of equal paths are equally reliable. -/
theorem Reliable.congr {file : Timestamp × List UInt8} {other : Path}
    (reliable : Reliable past now path file) (same : path == other) :
    Reliable past now other file where
  had := reliable.had.congr same
  current content found :=
    reliable.current content ((now.respected path other same).trans found)

/-- A time that a path has had and a content that is read after it make a reliable record. -/
theorem Reliable.of_read {source : FileSource} (tells : source.Tells now.files)
    {modified : Timestamp} (had : HadTime (now :: past) path modified) {content : List UInt8}
    (opened : source.read path = .ok content) : Reliable past now path (modified, content) where
  had := had
  current other found := by
    obtain ⟨time, holds⟩ := tells.text opened
    exact congrArg Prod.snd (Option.some.inj (found.symm.trans holds))

end History

namespace Scene

/-- The stores with what the update under way owes the index. -/
def settled (scene : Scene) : Indexer :=
  match scene.update with
  | .put path extraction =>
    { scene.indexer with
      index := scene.indexer.index.put path extraction.symbols extraction.script }
  | _ => scene.indexer

/-- What an update has found out so far can be relied on. -/
def Informed (past : List Scene) (now : Scene) : Prop :=
  match now.update with
  | .check path modified | .read path modified => HadTime (now :: past) path modified
  | .store path modified extraction => ∃ content,
      extraction = .ofFile path content ∧ Reliable past now path (modified, content)
  | .purgeCache _ | .purgeIndex _ _ => False
  | .stat _ | .put _ _ | .finished _ => True

/-- All that an indexer knows can be relied on, and all that it is about to learn. -/
structure Trusted (past : List Scene) (now : Scene) (known : Files) : Prop where
  reflects : now.settled.Reflects known
  reliable : ∀ path file, known path = some file → Reliable past now path file
  informed : Informed past now

end Scene

open Scene

variable {extension : String} {past : List Scene} {now next : Scene} {known : Files}

/-- An indexer that knows what it knew before can still rely on it. -/
theorem Scene.Trusted.keep (trusted : Trusted past now known) (follows : Follows past now next)
    (reflects : next.settled.Reflects known) (informed : Informed (now :: past) next) :
    Trusted (now :: past) next known where
  reflects := reflects
  reliable path file isKnown := (trusted.reliable path file isKnown).follows follows
  informed := informed

/-- An indexer that learns a reliable record can rely on what it knows then. -/
theorem Scene.Trusted.learn (trusted : Trusted past now known) (follows : Follows past now next)
    {path : Path} {file : Timestamp × List UInt8} (record : Reliable past now path file)
    (reflects : next.settled.Reflects (known.learn path file))
    (informed : Informed (now :: past) next) :
    Trusted (now :: past) next (known.learn path file) where
  reflects := reflects
  reliable other found isKnown := by
    rw [Files.learn] at isKnown
    split at isKnown
    next same =>
      obtain rfl := Option.some.inj isKnown
      exact (record.congr same).follows follows
    next => exact (trusted.reliable other found isKnown).follows follows
  informed := informed

/-- After a step an indexer can rely on what it knows. Storing is what makes a file known, and
the index is owed it from then on. -/
theorem Scene.Trusted.advance (trusted : Trusted past now known) {source : FileSource}
    (tells : source.Tells now.files) : ∃ known, Trusted (now :: past) (now.advance source) known := by
  have follows : Follows past now (now.advance source) := .step source tells
  have reflects := trusted.reflects
  have informed := trusted.informed
  obtain ⟨files, respected, indexer, update⟩ := now
  cases update with
  | stat path =>
    cases timed : source.modified path with
    | error error =>
      simp only [Scene.advance, Update.step, timed] at follows ⊢
      exact ⟨known, trusted.keep follows reflects trivial⟩
    | ok modified =>
      have had : HadTime (_ :: past) path modified := hadTime_of_tells tells timed
      simp only [Scene.advance, Update.step, timed] at follows ⊢
      exact ⟨known, trusted.keep follows reflects (had.later _)⟩
  | check path modified =>
    have had : HadTime (_ :: past) path modified := informed
    by_cases stale : indexer.cache.isStale path modified
    · simp only [Scene.advance, Update.step, if_pos stale] at follows ⊢
      exact ⟨known, trusted.keep follows reflects (had.later _)⟩
    · simp only [Scene.advance, Update.step, if_neg stale] at follows ⊢
      exact ⟨known, trusted.keep follows reflects trivial⟩
  | read path modified =>
    have had : HadTime (_ :: past) path modified := informed
    cases opened : source.read path with
    | error error =>
      simp only [Scene.advance, Update.step, opened] at follows ⊢
      exact ⟨known, trusted.keep follows reflects trivial⟩
    | ok content =>
      have record := Reliable.of_read tells had opened
      simp only [Scene.advance, Update.step, opened] at follows ⊢
      exact ⟨known, trusted.keep follows (reflects.of_stores rfl rfl)
        ⟨content, rfl, record.follows follows⟩⟩
  | store path modified extraction =>
    obtain ⟨content, rfl, record⟩ := informed
    exact ⟨known.learn path (modified, content), trusted.learn follows record
      ((reflects.absorb path (modified, content)).of_stores rfl rfl) trivial⟩
  | put path extraction => exact ⟨known, trusted.keep follows reflects trivial⟩
  | purgeCache above => exact informed.elim
  | purgeIndex above purged => exact informed.elim
  | finished answer => exact ⟨known, trusted.keep follows reflects trivial⟩

/-- Whatever comes next, an indexer can rely on what it knows then. -/
theorem Scene.Trusted.follows (trusted : Trusted past now known)
    (follows : Follows past now next) : ∃ known, Trusted (now :: past) next known := by
  have reflects := trusted.reflects
  have informed := trusted.informed
  cases follows with
  | edit files respected timely =>
    have follows := Follows.edit files respected timely
    refine ⟨known, trusted.keep follows reflects ?_⟩
    obtain ⟨before, sameBefore, indexer, update⟩ := now
    cases update with
    | check path modified => exact HadTime.later informed _
    | read path modified => exact HadTime.later informed _
    | store path modified extraction =>
      obtain ⟨content, isOf, record⟩ := informed
      exact ⟨content, isOf, record.follows follows⟩
    | _ => exact informed
  | call path idle =>
    refine ⟨known, trusted.keep (.call path idle) ?_ trivial⟩
    obtain ⟨before, sameBefore, indexer, update⟩ := now
    cases update with
    | finished answer => exact reflects
    | _ => exact Bool.noConfusion idle
  | step source tells => exact trusted.advance tells

/-- At every moment an indexer can rely on what it knows. -/
theorem Course.trusted (course : Course extension (now :: past)) :
    ∃ known, Trusted past now known := by
  generalize split : now :: past = history at course
  induction course generalizing now past with
  | start files respected path =>
    obtain ⟨rfl, rfl⟩ := List.cons.inj split
    exact ⟨fun _ => none, new_reflects extension, fun _ _ isKnown => (nomatch isKnown), trivial⟩
  | next course follows inductionHypothesis =>
    obtain ⟨rfl, rfl⟩ := List.cons.inj split
    obtain ⟨known, trusted⟩ := inductionHypothesis rfl
    exact trusted.follows follows

section Undisturbed

variable {path : Path}

/-- How far an update of a file has come that is not disturbed: all it has found out is of the
file as it is, and when it succeeds, the index has what the file gives. -/
def Scene.OnTrack (path : Path) (file? : Option (Timestamp × List UInt8)) (now : Scene) : Prop :=
  match now.update with
  | .stat other => other = path
  | .check other modified | .read other modified =>
    other = path ∧ ∃ content, file? = some (modified, content)
  | .store other modified extraction =>
    other = path ∧ ∃ content, file? = some (modified, content) ∧ extraction = .ofFile path content
  | .put other extraction =>
    other = path ∧ ∃ file, file? = some file ∧ extraction = .ofFile path file.2
  | .finished (.ok _) => ∃ file, file? = some file ∧
      now.indexer.index.symbols? path = some (Extraction.ofFile path file.2).symbols ∧
      now.indexer.index.scripts.find? path = (Extraction.ofFile path file.2).script
  | .finished (.error _) => True
  | .purgeCache _ | .purgeIndex _ _ => False

/-- A step keeps an undisturbed update on its track.

The one step that takes something on trust is the check. If the time in the cache is the one
at hand, the record can be relied on, so that the index has what the file gives already. -/
theorem Scene.OnTrack.advance (onTrack : now.OnTrack path (now.files path))
    (trusted : Trusted past now known) {source : FileSource} (tells : source.Tells now.files) :
    (now.advance source).OnTrack path (now.files path) := by
  obtain ⟨reflects, reliable, -⟩ := trusted
  obtain ⟨files, respected, indexer, update⟩ := now
  cases update with
  | stat other =>
    obtain rfl : other = path := onTrack
    cases timed : source.modified other with
    | error error => simp only [Scene.advance, Update.step, timed, Scene.OnTrack]
    | ok modified =>
      simp only [Scene.advance, Update.step, timed, Scene.OnTrack, true_and]
      exact tells.time timed
  | check other modified =>
    obtain ⟨rfl, content, found⟩ := onTrack
    by_cases stale : indexer.cache.isStale other modified
    · simp only [Scene.advance, Update.step, if_pos stale, Scene.OnTrack, true_and]
      exact ⟨content, found⟩
    · simp only [Scene.advance, Update.step, if_neg stale, Scene.OnTrack]
      obtain ⟨recorded, isKnown, _⟩ := reflects.known_of_fresh (Bool.eq_false_iff.mpr stale)
      obtain rfl : content = recorded := (reliable other _ isKnown).current content found
      have symbols := reflects.symbols other
      have scripts := reflects.scripts other
      rw [isKnown, Option.map_some] at symbols
      rw [isKnown, Option.bind_some] at scripts
      exact ⟨(modified, content), found, symbols, scripts⟩
  | read other modified =>
    obtain ⟨rfl, content, found⟩ := onTrack
    cases opened : source.read other with
    | error error => simp only [Scene.advance, Update.step, opened, Scene.OnTrack]
    | ok current =>
      simp only [Scene.advance, Update.step, opened, Scene.OnTrack, true_and]
      obtain ⟨time, holds⟩ := tells.text opened
      obtain ⟨rfl, rfl⟩ := Prod.mk.inj (Option.some.inj (found.symm.trans holds))
      exact ⟨content, found, rfl⟩
  | store other modified extraction =>
    obtain ⟨rfl, content, found, isOf⟩ := onTrack
    exact ⟨rfl, (modified, content), found, isOf⟩
  | put other extraction =>
    obtain ⟨rfl, file, found, rfl⟩ := onTrack
    refine ⟨file, found, ?_, ?_⟩
    · simp [Scene.advance, Update.step, Index.symbols?_put]
    · simp [Scene.advance, Update.step, Index.find?_put_scripts]
  | purgeCache above => exact onTrack.elim
  | purgeIndex above purged => exact onTrack.elim
  | finished answer => exact onTrack

/-- Whatever comes next while an update is under way, it stays on its track unless its file is
touched. -/
theorem Scene.OnTrack.follows (onTrack : now.OnTrack path (now.files path))
    (trusted : Trusted past now known) (underWay : now.update.isFinished = false)
    (follows : Follows past now next) : next.OnTrack path (now.files path) := by
  cases follows with
  | edit files respected timely => exact onTrack
  | call other idle => exact absurd idle (by simp [underWay])
  | step source tells => exact onTrack.advance trusted tells

/-- An update that is not disturbed is on its track at every moment from its beginning to its
end. -/
theorem Course.onTrack {call : Scene} (during : List Scene)
    (course : Course extension (now :: during ++ call :: past)) (begins : call.update = .stat path)
    (underWay : ∀ scene ∈ during, scene.update.isFinished = false)
    (undisturbed : ∀ scene ∈ now :: during, scene.files path = call.files path) :
    now.OnTrack path (now.files path) := by
  have isBegun : call.OnTrack path (call.files path) := by
    rw [Scene.OnTrack, begins]
  have callUnderWay : call.update.isFinished = false := by rw [begins]; rfl
  induction during generalizing now with
  | nil =>
    cases course with
    | next before follows =>
      obtain ⟨known, trusted⟩ := before.trusted
      rw [undisturbed now List.mem_cons_self]
      exact isBegun.follows trusted callUnderWay follows
  | cons last earlier inductionHypothesis =>
    cases course with
    | next before follows =>
      obtain ⟨known, trusted⟩ := before.trusted
      have lastOnTrack := inductionHypothesis before
        (fun scene member => underWay scene (List.mem_cons_of_mem last member))
        (fun scene member => undisturbed scene (List.mem_cons_of_mem now member))
      have sameFile : now.files path = last.files path := by
        rw [undisturbed now List.mem_cons_self,
          undisturbed last (List.mem_cons_of_mem now List.mem_cons_self)]
      rw [sameFile]
      exact lastOnTrack.follows trusted (underWay last List.mem_cons_self) follows

end Undisturbed

/-- Where an update succeeds and its file was not touched from its beginning to its end, the
index has what the file gives as it is now.

Before it began, and to all other files even while it was under way, anything may have
happened, such as writes that earlier updates of the same file fell into. -/
theorem undisturbed_update_finds_current_content {during : List Scene} {call after : Scene}
    {path : Path} {parsed : Bool}
    (course : Course extension (after :: during ++ call :: past))
    (begins : call.update = .stat path)
    (underWay : ∀ scene ∈ during, scene.update.isFinished = false)
    (succeeds : after.update = .finished (.ok parsed))
    (undisturbed : ∀ scene ∈ after :: during, scene.files path = call.files path) :
    ∃ modified content, after.files path = some (modified, content) ∧
      after.indexer.index.symbols? path = some (Extraction.ofFile path content).symbols ∧
      after.indexer.index.scripts.find? path = (Extraction.ofFile path content).script := by
  have onTrack := course.onTrack during begins underWay undisturbed
  rw [Scene.OnTrack, succeeds] at onTrack
  obtain ⟨⟨modified, content⟩, found, symbols, scripts⟩ := onTrack
  exact ⟨modified, content, found, symbols, scripts⟩

/-- A uniform source tells of files that all have its time and its content. -/
theorem uniform_tells (time : Int) (content : List UInt8) :
    (uniform time content).Tells fun _ => some (⟨time⟩, content) where
  time timed := ⟨content, by rw [← Except.ok.inj timed]⟩
  text opened := ⟨⟨time⟩, by rw [← Except.ok.inj opened]⟩

/-- A file is written when an update has taken its time and not yet read it, so that what it
holds now is stored under the time it had before. The next update finds it as it is. -/
theorem undisturbed_update_after_an_overlapped_one :
    let path : Path := ⟨"/r/a.psc"⟩
    let recent := "event e(".toUTF8.toList
    ∃ (past during : List Scene) (call after : Scene),
      Course "psc" (after :: during ++ call :: past) ∧
      (∃ overlapped ∈ past, overlapped.files path = some (⟨2⟩, recent) ∧
        overlapped.update = .store path ⟨1⟩ (.ofFile path recent)) ∧
      call.update = .stat path ∧ (∀ scene ∈ during, scene.update.isFinished = false) ∧
      after.update = .finished (.ok true) ∧
      (∀ scene ∈ after :: during, scene.files path = call.files path) ∧
      after.indexer.index.symbols? path = some (Extraction.ofFile path recent).symbols := by
  intro path recent
  let start : Scene := ⟨fun _ => some (⟨1⟩, []), fun _ _ _ => rfl, new "psc", .stat path⟩
  let timed := start.advance (uniform 1 [])
  let reading := timed.advance (uniform 1 [])
  let written : Scene := { reading with
    files := fun _ => some (⟨2⟩, recent), respected := fun _ _ _ => rfl }
  let later (count : Nat) := (Scene.advance (uniform 2 recent))^[count] written
  let call : Scene := { later 3 with update := .stat path }
  let called (count : Nat) := (Scene.advance (uniform 2 recent))^[count] call
  have before : (uniform 1 []).Tells start.files := uniform_tells 1 []
  have after : (uniform 2 recent).Tells written.files := uniform_tells 2 recent
  have newTime (other : Path) : ¬ HadTime [reading, timed, start] other ⟨2⟩ := by
    rintro ⟨scene, member, content, found⟩
    have hasOld : scene.files other = some (⟨1⟩, []) := by
      rcases List.mem_cons.mp member with rfl | member
      · rfl
      · rcases List.mem_cons.mp member with rfl | member
        · rfl
        · rw [List.mem_singleton.mp member]
    simp [hasOld] at found
  have overlapped : (later 1).update = .store path ⟨1⟩ (.ofFile path recent) := by
    simp [later, written, reading, timed, start, Scene.advance, Update.step, uniform, new,
      Cache.isStale, Cache.empty]
  have isDone : (later 3).update.isFinished := by
    simp [later, written, reading, timed, start, Scene.advance, Update.step, uniform, new,
      Cache.isStale, Cache.empty, Update.isFinished]
  have stored : (later 3).indexer.cache =
      Cache.empty.store path ⟨1⟩ (Extraction.ofFile path recent).symbols := by
    simp [later, written, reading, timed, start, Scene.advance, Update.step, uniform, new,
      Cache.isStale, Cache.empty]
  have stale : (later 3).indexer.cache.isStale path ⟨2⟩ := by
    simp [stored, Cache.isStale, Cache.find?_store]
  have earlier : Course "psc" [written, reading, timed, start] := by
    refine (((Course.start _ _ path).next (.step _ before)).next (.step _ before)).next
      (.edit _ _ ?_)
    rintro other file found
    obtain rfl := Option.some.inj found
    exact Or.inr (newTime other)
  have between : Course "psc" [call, later 3, later 2, later 1, written, reading, timed, start] :=
    (((earlier.next (.step _ after)).next (.step _ after)).next (.step _ after)).next
      (.call path isDone)
  have course : Course "psc" (called 5 :: [called 4, called 3, called 2, called 1] ++
      call :: [later 3, later 2, later 1, written, reading, timed, start]) :=
    ((((between.next (.step _ after)).next (.step _ after)).next (.step _ after)).next
      (.step _ after)).next (.step _ after)
  have underWay : ∀ scene ∈ [called 4, called 3, called 2, called 1],
      scene.update.isFinished = false := by
    simp [called, call, Scene.advance, Update.step, stale, uniform, Update.isFinished]
  have succeeds : (called 5).update = .finished (.ok true) := by
    simp [called, call, Scene.advance, Update.step, stale, uniform]
  have undisturbed : ∀ scene ∈ [called 5, called 4, called 3, called 2, called 1],
      scene.files path = call.files path := by
    simp [called, Scene.advance]
  obtain ⟨modified, content, found, symbols, _⟩ :=
    undisturbed_update_finds_current_content course rfl underWay succeeds undisturbed
  obtain ⟨rfl, rfl⟩ := Prod.mk.inj (Option.some.inj found)
  exact ⟨_, _, call, called 5, course, ⟨later 1, by simp, rfl, overlapped⟩, rfl, underWay, succeeds,
    undisturbed, symbols⟩

end Indexer
end Papyrus
