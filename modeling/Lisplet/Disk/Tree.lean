import Lisplet.Host

/-!
# Files in memory

A tree of directories and files, and the host that it makes together with the repositories kept in
some of its directories. A path is followed name by name: a name is looked for only in a directory,
and a slash at the end asks for a directory too.
-/

namespace Lisplet

/-- A file, or a directory with its entries. -/
inductive FileTree where
  | file (content : String)
  | directory (entries : List (String × FileTree))
  deriving Repr, Inhabited

namespace FileTree

/-- Replace the entry of a name by a tree. -/
def put (name : String) (t : FileTree) : List (String × FileTree) → List (String × FileTree)
  | [] => [(name, t)]
  | (n, u) :: rest => if n = name then (n, t) :: rest else (n, u) :: put name t rest

/-- The entries of a directory; a file has none. -/
def entries : FileTree → List (String × FileTree)
  | .file _ => []
  | .directory es => es

/-- Put a tree at a path given by its names, making directories on the way. -/
def insert (t : FileTree) : List String → FileTree → FileTree
  | [], _ => t
  | name :: rest, here =>
    let below := (here.entries.lookup name).getD (.directory [])
    .directory (put name (insert t rest below) here.entries)

/-- Make a directory at a path given by its names, unless there is one. -/
def makeDirectory : List String → FileTree → FileTree
  | [], .directory es => .directory es
  | [], .file _ => .directory []
  | name :: rest, here =>
    let below := (here.entries.lookup name).getD (.directory [])
    .directory (put name (makeDirectory rest below) here.entries)

/-- The longest name of a file in bytes. -/
def maxName : Nat := 255

/-- The longest path in bytes. -/
def maxPath : Nat := 4095

/-- Follow names from a directory, given the directories above it. -/
def follow : List FileTree → FileTree → List String → Except DiskFault FileTree
  | _, here, [] => .ok here
  | _, .file _, _ :: _ => .error .notDirectory
  | above, .directory es, name :: rest =>
    if name = "" || name = "." then follow above (.directory es) rest
    else if name = ".." then
      match above with
      | [] => follow [] (.directory es) rest
      | up :: above => follow above up rest
    else if maxName < name.utf8ByteSize then .error .nameTooLong
    else
      match es.lookup name with
      | none => .error .notFound
      | some t => follow (.directory es :: above) t rest

/-- The names of a path. -/
def names (path : String) : List String := (Path.pieces path.toList).map String.ofList

/-- Follow a path, which starts at a given directory unless it starts at the root. -/
def find (root : FileTree) (workingDirectory path : String) : Except DiskFault FileTree :=
  if path.toList.contains '\x00' then .error .invalidName
  else if path.isEmpty then .error .notFound
  else if maxPath < path.utf8ByteSize then .error .nameTooLong
  else if Path.isAbsolute path then follow [] root (names path)
  else follow [] root (names (workingDirectory ++ "/" ++ path))

/-- Whether a tree is a directory. -/
def isDirectory : FileTree → Bool
  | .file _ => false
  | .directory _ => true

end FileTree

/-- Files in memory, with the repositories kept in some directories. -/
structure Disk where
  root : FileTree := .directory []
  workingDirectory : String := "/"
  /-- The repositories by the clean paths of their directories. -/
  repositories : List (String × Repository) := []
  deriving Repr, Inhabited

namespace Disk

/-- The host that files in memory make. -/
def host (d : Disk) : Host Id where
  isDirectory path := (d.root.find d.workingDirectory path).map (·.isDirectory)
  read path :=
    match d.root.find d.workingDirectory path with
    | .error f => .error f
    | .ok (.directory _) => .error .isDirectory
    | .ok (.file content) => .ok content
  workingDirectory := d.workingDirectory
  repository? path := d.repositories.lookup (Path.clean path)

/-- The names of a path, which starts at the working directory unless it starts at the root. -/
def namesOf (d : Disk) (path : String) : List String :=
  let full := if Path.isAbsolute path then Path.clean path else Path.join d.workingDirectory path
  (FileTree.names full).filter (· ≠ "")

/-- Write a file. -/
def write (d : Disk) (path content : String) : Disk :=
  { d with root := FileTree.insert (.file content) (d.namesOf path) d.root }

/-- Make a directory. -/
def makeDirectory (d : Disk) (path : String) : Disk :=
  { d with root := FileTree.makeDirectory (d.namesOf path) d.root }

/-- Keep a repository in a directory, with the files of its current commit beside it. -/
def addRepository (d : Disk) (path : String) (r : Repository) : Disk :=
  let full := if Path.isAbsolute path then Path.clean path else Path.join d.workingDirectory path
  let d := d.makeDirectory (full ++ "/.git")
  let files := (r.head?.map (·.files)).getD []
  let d := files.foldl (fun d (name, content) => d.write (full ++ "/" ++ name) content) d
  { d with repositories := (full, r) :: d.repositories }

end Disk

end Lisplet
