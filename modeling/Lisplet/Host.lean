import Lisplet.Disk
import Lisplet.Git.Repository
import Lisplet.Path

/-!
# Hosts

A host answers questions about files. What is built on it is the same for files on a disk and for
files kept in memory.
-/

namespace Lisplet

/-- The place where a program runs. -/
structure Host (m : Type → Type) where
  /-- Whether a path is that of a directory. -/
  isDirectory : String → m (Except DiskFault Bool)
  /-- The content of a file. -/
  read : String → m (Except DiskFault String)
  /-- The directory that relative paths start from. -/
  workingDirectory : m String
  /-- The repository that is kept in a directory. -/
  repository? : String → m (Option Repository)

/-- The clean path from the root that means the same as a path. -/
def Host.absolute {m : Type → Type} [Monad m] (host : Host m) (path : String) : m String := do
  if Path.isAbsolute path then return Path.clean path
  else return Path.join (← host.workingDirectory) path

end Lisplet
