import Papyrus.Disk

/-!
# Changes to a disk

Each change names places by paths and fails without an effect on what it names.
Writing a file and making a link or a directory also make the directories above.
-/
namespace Papyrus.Disk

/-- Put a node at the end of a trail. -/
def set (disk : Disk) (trail : Trail) (node : Node) : Disk :=
  { disk with nodes := disk.nodes.insert trail node }

/-- Take away what stands at the end of a trail, with everything below it. -/
def clear (disk : Disk) (trail : Trail) : Disk :=
  { disk with nodes := disk.nodes.eraseIf fun place => trail.isSuffixOf place }

/-- The paths to a place and to the directories above it, the outermost first. -/
def stages (path : Path) : List Path :=
  let pieces := pieces path.text
  (List.range pieces.length).map fun count =>
    ⟨"/".intercalate (pieces.take (count + 1))⟩

/-- Make one directory, unless the path leads to one already. -/
def makeDirectory (disk : Disk) (path : Path) : Except FileError Disk :=
  if path.text.isEmpty || disk.isDirectory path then .ok disk
  else do
    let trail ← disk.locate .newPlace path
    match disk.node? trail with
    | some _ => throw .alreadyExists
    | none => return disk.set trail .directory

/-- Make a directory and those above it. -/
def makeDirectories (disk : Disk) (path : Path) : Except FileError Disk :=
  (stages path).foldlM makeDirectory disk

/-- Make the directories above a path. -/
def makeParents (disk : Disk) (path : Path) : Except FileError Disk :=
  ((stages path).dropLast).foldlM makeDirectory disk

/-- Write a file, new or not, and give it a modification time. -/
def write (disk : Disk) (path : Path) (content : List UInt8) (modified : Timestamp) :
    Except FileError Disk := do
  let disk ← disk.makeParents path
  let trail ← disk.locate .newTarget path
  match disk.node? trail with
  | some .directory => throw .isDirectory
  | _ => return disk.set trail (.file content modified)

/-- Set the modification time of a file. The time of a directory is not kept. -/
def touch (disk : Disk) (path : Path) (modified : Timestamp) : Except FileError Disk := do
  let trail ← disk.locate .target path
  match disk.node? trail with
  | some (.file content _) => return disk.set trail (.file content modified)
  | some _ => return disk
  | none => throw .notFound

/-- Make a symbolic link with the given target, whether that exists or not. -/
def makeLink (disk : Disk) (path : Path) (target : String) : Except FileError Disk := do
  let disk ← disk.makeParents path
  if target.isEmpty then throw .notFound
  let trail ← disk.locate .newPlace path
  match disk.node? trail with
  | some _ => throw .alreadyExists
  | none => return disk.set trail (.link target)

/-- Remove a file, a link, or a directory with all that it holds. -/
def remove (disk : Disk) (path : Path) : Except FileError Disk := do
  let trail ← disk.locate .place path
  return disk.clear trail

/-- Whether something stands below a trail. -/
def isOccupied (disk : Disk) (trail : Trail) : Bool :=
  disk.nodes.keys.any fun place => place.length > trail.length && trail.isSuffixOf place

/-- The nodes of a tree, moved from one trail to another. -/
def moved (disk : Disk) (source destination : Trail) : Disk :=
  let tree := disk.nodes.entries.filter fun entry => source.isSuffixOf entry.1
  tree.foldl (fun disk entry =>
      disk.set (entry.1.take (entry.1.length - source.length) ++ destination) entry.2)
    ((disk.clear source).clear destination)

/-- Move a file, a link or a directory. A file replaces a file, and a directory an
empty directory. -/
def rename (disk : Disk) (source destination : Path) : Except FileError Disk := do
  let origin ← disk.locate .place source
  let place ← disk.locate .newPlace destination
  if origin = place then return disk
  if origin.isSuffixOf place then throw .insideItself
  let isTree := disk.node? origin == some .directory
  match disk.node? place with
  | none => return disk.moved origin place
  | some .directory =>
    if !isTree then throw .isDirectory
    else if disk.isOccupied place then throw .notEmpty
    else return disk.moved origin place
  | some _ => if isTree then throw .notDirectory else return disk.moved origin place

end Papyrus.Disk
