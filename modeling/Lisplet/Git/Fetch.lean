import Lisplet.Git.Revision
import Lisplet.Git.Source
import Lisplet.Host
import Lisplet.Text.Quoted
import Lisplet.Text.Utf8

/-!
# Fetching scripts

A source whose address is a directory is read from the repository around that directory; any other
address is that of a repository to copy first. The script is then looked for among the files of the
commit that the source selects.

* `GitSource.fetch`: the script of a source.
-/

namespace Lisplet

/-- A script read from a repository. -/
structure GitScript where
  source : String
  commit : String
  descriptor : String
  deriving DecidableEq, Repr, Inhabited

/-- Why a script cannot be fetched. -/
inductive GitFault where
  | misuse (m : GitMisuse)
  | noRepository (directory : String)
  | notCopied (url : String) (f : CloneFault)
  | unresolved (revision : String) (f : ResolveFault)
  | noScript (url descriptor path : String)
  deriving DecidableEq, Repr, Inhabited

/-- The wording of a fault. -/
def CloneFault.message : CloneFault → String
  | .noRepository => "repository not found"
  | .blank => "remote repository is empty"
  | .noBranch name => "couldn't find remote ref " ++ Text.quote name
  | .unknownScheme scheme => "unsupported scheme " ++ Text.quote scheme
  | .badUrl url reason => "parse " ++ Text.quote url ++ ": " ++ reason

/-- The wording of a fault. -/
def GitFault.message : GitFault → String
  | .misuse m => m.message
  | .noRepository directory => "git open " ++ directory ++ ": repository does not exist"
  | .notCopied url f => "git clone " ++ url ++ ": " ++ f.message
  | .unresolved revision f => "resolve revision " ++ revision ++ ": " ++ f.message
  | .noScript url descriptor path =>
    "git source " ++ url ++ "@" ++ descriptor ++ ": " ++ path ++ ": file not found"

/-! ### Addresses -/

namespace Address

/-- The scheme of an address and what follows the two slashes, if it has a scheme. -/
def scheme? (url : String) : Option (String × List Char) :=
  let cs := url.toList
  match cs.takeWhile (· ≠ ':'), cs.dropWhile (· ≠ ':') with
  | [], _ => none
  | scheme, ':' :: '/' :: '/' :: rest => some (String.ofList (scheme.map Char.toLower), rest)
  | _, _ => none

/-- The text after two slashes if an address starts with the scheme of files, else the address. -/
def localPath (url : String) : String :=
  let start := "file://".toList
  if start.isPrefixOf url.toList then String.ofList (url.toList.drop start.length) else url

/-- The value of a hexadecimal digit. -/
def hexValue? (c : Char) : Option Nat :=
  if c.isDigit then some (c.toNat - '0'.toNat)
  else
    let l := c.toLower
    if 'a' ≤ l && l ≤ 'f' then some (l.toNat - 'a'.toNat + 10) else none

/-- Undo the escapes of a path: a percent sign and two digits stand for a byte. Fails with the
escape that is none. -/
def unescape : List Char → Except (List Char) (List UInt8)
  | [] => .ok []
  | '%' :: a :: b :: rest =>
    match hexValue? a, hexValue? b with
    | some x, some y => return (x * 16 + y).toUInt8 :: (← unescape rest)
    | _, _ => .error ['%', a, b]
  | '%' :: rest => .error ('%' :: rest)
  | c :: rest => return Text.bytes (String.ofList [c]) ++ (← unescape rest)

/-- The path that an address of a file names: the text from its first slash on, with its escapes
undone up to a question mark. -/
def filePath (url : String) (rest : List Char) : Except CloneFault String :=
  if url.toList.any fun c => c.toNat < 0x20 || c.toNat = 0x7f then
    .error (.badUrl url "net/url: invalid control character in URL")
  else
    let beforeMark := rest.takeWhile (· ≠ '#')
    let fragment := rest.dropWhile (· ≠ '#')
    let body := beforeMark.takeWhile (· ≠ '?')
    let query := beforeMark.dropWhile (· ≠ '?')
    let text (bytes : List UInt8) : String := String.ofList (Text.decode bytes)
    let shown (cs : List Char) : List Char := if cs.length ≤ 1 then [] else cs
    match unescape (body.dropWhile (· ≠ '/')), unescape (shown fragment) with
    | .ok path, .ok mark => .ok (text path ++ String.ofList (shown query) ++ text mark)
    | .error e, _ | _, .error e =>
      .error (.badUrl url ("invalid URL escape " ++ Text.quote (String.ofList e)))

end Address

namespace Host

variable {m : Type → Type} [Monad m]

/-- The repository kept in the first of some directories that keeps one. -/
def enclosing? (host : Host m) : List String → m (Option Repository)
  | [] => return none
  | d :: rest => do
    match ← host.isDirectory (Path.join d ".git") with
    | .ok _ => host.repository? d
    | .error .notFound => host.enclosing? rest
    | .error _ => return none

/-- The repository to copy for an address that is no directory. -/
def remote (host : Host m) (url : String) : m (Except CloneFault Repository) := do
  let path : Except CloneFault String ←
    match Address.scheme? url with
    | none => .ok <$> host.absolute url
    | some ("file", rest) => pure (Address.filePath url rest)
    | some (scheme, _) =>
      -- There is no network to reach these through.
      if ["http", "https", "ssh", "git"].contains scheme then pure (.error .noRepository)
      else pure (.error (.unknownScheme scheme))
  match path with
  | .error f => return .error f
  | .ok path =>
    let full ← host.absolute path
    match ← host.repository? full with
    | some r => return .ok r
    | none =>
      match ← host.repository? (full ++ ".git") with
      | some r => return .ok r
      | none => return .error .noRepository

/-- Open the repository of a request. -/
def openRepository (host : Host m) (q : GitRequest) : m (Except GitFault Repository) := do
  let directory := Address.localPath q.url
  match ← host.isDirectory directory with
  | .ok true =>
    match ← host.enclosing? (Path.upward (← host.absolute directory)) with
    | some r => return .ok r
    | none => return .error (.noRepository directory)
  | _ =>
    match ← host.remote q.url with
    | .error f => return .error (.notCopied q.url f)
    | .ok r =>
      match r.clone q.branch with
      | .error f => return .error (.notCopied q.url f)
      | .ok copy => return .ok copy

end Host

/-- The script that a request asks a repository for. -/
def Repository.script (r : Repository) (q : GitRequest) : Except GitFault GitScript :=
  match r.resolve q.revision with
  | .error f => .error (.unresolved q.revision f)
  | .ok c =>
    match c.files.lookup (Path.clean q.path) with
    | none => .error (.noScript q.url q.descriptor q.path)
    | some source => .ok { source, commit := c.hash, descriptor := q.descriptor }

/-- Fetch the script of a source. -/
def GitSource.fetch {m : Type → Type} [Monad m] (s : GitSource) (host : Host m) :
    m (Except GitFault GitScript) := do
  match s.check with
  | .error e => return .error (.misuse e)
  | .ok q =>
    match ← host.openRepository q with
    | .error f => return .error f
    | .ok r => return r.script q

end Lisplet
