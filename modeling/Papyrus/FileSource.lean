import Papyrus.Path
import Papyrus.Timestamp

/-!
# Where files come from

Everything that is known about files is asked of a source: when a file was changed, what
it holds, and what stands below a directory. Any question may fail, for any path. Nothing
else in the library depends on what kind of source it is.
-/
namespace Papyrus

/-- Why a path cannot be used. -/
inductive FileError where
  | notFound
  | notDirectory
  | isDirectory
  | alreadyExists
  | notEmpty
  | insideItself
  | tooManyLinks
  | nameTooLong
  | nulInName
  | other (text : String)
  deriving DecidableEq, Repr

/-- The system's wording of an error. -/
def FileError.message : FileError → String
  | .notFound => "No such file or directory (os error 2)"
  | .notDirectory => "Not a directory (os error 20)"
  | .isDirectory => "Is a directory (os error 21)"
  | .alreadyExists => "File exists (os error 17)"
  | .notEmpty => "Directory not empty (os error 39)"
  | .insideItself => "Invalid argument (os error 22)"
  | .tooManyLinks => "Too many levels of symbolic links (os error 40)"
  | .nameTooLong => "File name too long (os error 36)"
  | .nulInName => "file name contained an unexpected NUL byte"
  | .other text => text

/-- What a walk comes across, with the path that leads there. -/
inductive Visit where
  | file (path : Path)
  | directory (path : Path)
  | failure (path : Path)
  deriving Repr

/-- Answers about files. A walk starts with the directory itself; there is none from a
path that is no directory. -/
structure FileSource where
  modified : Path → Except FileError Timestamp
  read : Path → Except FileError (List UInt8)
  walk : Path → List Visit

end Papyrus
