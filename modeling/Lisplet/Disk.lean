/-!
# Faults of a disk

What can be wrong with a path, and how it is worded when a path is looked at or a file is read.
-/

namespace Lisplet

/-- Why a path cannot be used. -/
inductive DiskFault where
  | notFound
  | notDirectory
  | isDirectory
  | invalidName
  | nameTooLong
  | denied
  /-- Any other reason, in its own words. -/
  | other (reason : String)
  deriving DecidableEq, Repr, Inhabited

namespace DiskFault

/-- The wording of a fault. -/
def text : DiskFault → String
  | .notFound => "no such file or directory"
  | .notDirectory => "not a directory"
  | .isDirectory => "is a directory"
  | .invalidName => "invalid argument"
  | .nameTooLong => "file name too long"
  | .denied => "permission denied"
  | .other reason => reason

/-- The wording of a fault met when reading the file at a path: a directory can be opened, and
fails only then. -/
def readText (path : String) (f : DiskFault) : String :=
  (if f = .isDirectory then "read " else "open ") ++ path ++ ": " ++ f.text

/-- The wording of a fault met when looking at a path. -/
def statText (path : String) (f : DiskFault) : String := "stat " ++ path ++ ": " ++ f.text

end DiskFault

end Lisplet
