import Lisplet.Git.Fetch
import Lisplet.Manifest

/-!
# Programs

A program is a script together with its name and limits. It is read from a file, from a project's
directory with a manifest in it, or from a repository.

* `Program.load`: the program at a path;
* `Program.ofGit`: the program of a source.
-/

namespace Lisplet

/-- A program to run. -/
structure Program where
  name : String
  source : String
  /-- Where the script was read from. -/
  origin : String
  /-- The hash of the commit that the script was read from, if it was. -/
  commit : String := ""
  limits : Limits := {}
  deriving DecidableEq, Repr, Inhabited

/-- Why a program cannot be loaded. -/
inductive LoadFault where
  | stat (path : String) (f : DiskFault)
  | unreadable (path : String) (f : DiskFault)
  | noManifest (directory : String)
  | noManifestPath
  | manifestUnreadable (path : String) (f : DiskFault)
  | badManifest (path : String) (f : Manifest.Fault)
  | git (f : GitFault)
  deriving Repr

namespace LoadFault

/-- The wording of a fault. -/
def message : LoadFault → String
  | .stat path f => "driver: " ++ f.statText path
  | .unreadable path f => "driver: read " ++ path ++ ": " ++ f.readText path
  | .noManifest directory => "driver: no " ++ Manifest.fileName ++ " found in " ++ directory
  | .noManifestPath => "manifest: empty path"
  | .manifestUnreadable path .isDirectory =>
    "manifest: parse " ++ path ++ ": yaml: input error: " ++ DiskFault.isDirectory.readText path
  | .manifestUnreadable path f => "manifest: open " ++ path ++ ": " ++ f.readText path
  | .badManifest path .blank => "manifest: " ++ path ++ " is empty"
  | .badManifest path (.unreadable f) => "manifest: parse " ++ path ++ ": " ++ f.message
  | .badManifest _ (.invalid issues) => Manifest.report issues
  | .git f => f.message

/-- Whether a fault is that of a file that is absent. -/
def isAbsent : LoadFault → Bool
  | .stat _ f | .unreadable _ f | .manifestUnreadable _ f => f == .notFound
  | _ => false

end LoadFault

variable {m : Type → Type} [Monad m]

/-- Read the manifest at a path. -/
def Manifest.load (host : Host m) (path : String) : m (Except LoadFault Manifest) := do
  if path.isEmpty then return .error .noManifestPath
  let full ← host.absolute path
  match ← host.read full with
  | .error f => return .error (.manifestUnreadable full f)
  | .ok text =>
    match Manifest.ofText full text with
    | .error f => return .error (.badManifest full f)
    | .ok manifest => return .ok manifest

namespace Program

/-- Read the program in a file. -/
def ofFile (host : Host m) (path : String) : m (Except LoadFault Program) := do
  match ← host.read path with
  | .error f => return .error (.unreadable path f)
  | .ok source => return .ok { name := Path.stem path, source, origin := path }

/-- Read the program of a source. -/
def ofGit (host : Host m) (s : GitSource) : m (Except LoadFault Program) := do
  match ← s.fetch host with
  | .error f => return .error (.git f)
  | .ok script =>
    return .ok
      { name := Path.stem s.path
        source := script.source
        origin := s.url ++ "@" ++ script.descriptor ++ ":" ++ s.path
        commit := script.commit }

/-- Read the program that the manifest in a directory describes. -/
def ofProject (host : Host m) (directory : String) : m (Except LoadFault Program) := do
  let path := Path.join directory Manifest.fileName
  match ← host.isDirectory path with
  | .error .notFound => return .error (.noManifest directory)
  | .error f => return .error (.stat path f)
  | .ok _ =>
    match ← Manifest.load host path with
    | .error f => return .error f
    | .ok manifest =>
      let program ←
        match manifest.source with
        | some s => ofGit host s
        | none => ofFile host manifest.mainPath
      return program.map ({ · with name := manifest.name, limits := manifest.limits })

/-- Read the program at a path: a file, or the directory of a project. A blank path is that of the
working directory. -/
def load (host : Host m) (target : String) : m (Except LoadFault Program) := do
  let target := if Text.isBlankText target then "." else target
  match ← host.isDirectory target with
  | .error f => return .error (.stat target f)
  | .ok true => ofProject host target
  | .ok false => ofFile host target

end Program

end Lisplet
