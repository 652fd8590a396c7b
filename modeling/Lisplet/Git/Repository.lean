/-!
# Repositories

A repository keeps commits under their hashes, and names that stand for them. A name is a hash or
another name; `HEAD` is the name of the current branch. A tag with a message of its own is an
object that points to a commit.

* `Repository.record`, `Repository.tag`, `Repository.annotate`, `Repository.branch`,
  `Repository.checkout`: how a repository grows;
* `Repository.target?`: the hash that a name stands for;
* `Repository.clone`: what a copy of a repository holds.
-/

namespace Lisplet

/-- A state of the files, and the commits that it follows. -/
structure Commit where
  hash : String
  parents : List String := []
  message : String := ""
  /-- The contents of the files by their paths. -/
  files : List (String × String) := []
  deriving DecidableEq, Repr, Inhabited

/-- What a name stands for. -/
inductive Ref where
  | hash (h : String)
  | name (n : String)
  deriving DecidableEq, Repr, Inhabited

/-- A repository. -/
structure Repository where
  commits : List Commit := []
  /-- The tags that are objects: their hashes, and the hashes of the commits that they point to. -/
  tagObjects : List (String × String) := []
  /-- The names, with their full spelling. -/
  refs : List (String × Ref) := [("HEAD", .name "refs/heads/master")]
  deriving Repr, Inhabited

/-- Why a repository cannot be copied. -/
inductive CloneFault where
  | noRepository
  | blank
  | noBranch (name : String)
  | unknownScheme (scheme : String)
  | badUrl (url reason : String)
  deriving DecidableEq, Repr, Inhabited

namespace Repository

/-- The full spelling of a branch's name. -/
def branchName (b : String) : String := "refs/heads/" ++ b

/-- The full spelling of a tag's name. -/
def tagName (t : String) : String := "refs/tags/" ++ t

/-- Change what a name stands for. -/
def setRef (r : Repository) (name : String) (ref : Ref) : Repository :=
  { r with refs := (name, ref) :: r.refs.filter (·.1 ≠ name) }

/-- Follow names to a hash, in a number of steps. -/
def follow (r : Repository) : Nat → String → Option String
  | 0, _ => none
  | steps + 1, name =>
    match r.refs.lookup name with
    | some (.hash h) => some h
    | some (.name n) => r.follow steps n
    | none => none

/-- The hash that a name stands for. -/
def target? (r : Repository) (name : String) : Option String := r.follow 1024 name

/-- The commit with a hash. -/
def commit? (r : Repository) (hash : String) : Option Commit :=
  r.commits.find? (·.hash == hash)

/-- The commit that a hash leads to, through a tag if it is the hash of one. -/
def peel? (r : Repository) (hash : String) : Option Commit :=
  match r.commit? hash with
  | some c => some c
  | none => (r.tagObjects.lookup hash).bind r.commit?

/-- The commit of the current branch. -/
def head? (r : Repository) : Option Commit := (r.target? "HEAD").bind r.commit?

/-- The full name of the current branch. -/
def currentBranch (r : Repository) : String :=
  match r.refs.lookup "HEAD" with
  | some (.name n) => n
  | _ => "HEAD"

/-! ### Growing -/

/-- Change the contents of files: each is written anew, or removed if there is none. -/
def changed (files : List (String × String)) (changes : List (String × Option String)) :
    List (String × String) :=
  changes.foldl (fun files (path, content) =>
    let rest := files.filter (·.1 ≠ path)
    match content with
    | some text => rest ++ [(path, text)]
    | none => rest) files

/-- Add a commit to the current branch. -/
def record (r : Repository) (hash : String) (changes : List (String × Option String)) :
    Repository :=
  let before := r.head?
  let commit : Commit :=
    { hash
      parents := (before.map (·.hash)).toList
      files := changed ((before.map (·.files)).getD []) changes }
  { r with commits := commit :: r.commits }.setRef r.currentBranch (.hash hash)

/-- Name the current commit by a tag. -/
def tag (r : Repository) (t : String) : Repository :=
  match r.target? "HEAD" with
  | some h => r.setRef (tagName t) (.hash h)
  | none => r

/-- Name the current commit by a tag that is an object of its own. -/
def annotate (r : Repository) (t hash : String) : Repository :=
  match r.target? "HEAD" with
  | some h => { r with tagObjects := (hash, h) :: r.tagObjects }.setRef (tagName t) (.hash hash)
  | none => r

/-- Make a branch the current one. -/
def checkout (r : Repository) (b : String) : Repository := r.setRef "HEAD" (.name (branchName b))

/-- Start a branch at the current commit, and make it the current one. -/
def branch (r : Repository) (b : String) : Repository :=
  match r.target? "HEAD" with
  | some h => (r.setRef (branchName b) (.hash h)).checkout b
  | none => r.checkout b

/-! ### Copies -/

/-- The names that start with a text, each with the rest of its spelling and its hash. -/
def refsBelow (r : Repository) (start : String) : List (String × String) :=
  r.refs.filterMap fun (name, _) =>
    if start.toList.isPrefixOf name.toList then
      (r.target? name).map fun h => (String.ofList (name.toList.drop start.length), h)
    else none

/-- The names that a copy holds for some branches, with one of them current. -/
def copyWith (r : Repository) (branches : List (String × String)) (current hash : String) :
    Repository :=
  { r with
    refs := [("HEAD", .name current), (current, .hash hash)] ++
      branches.map (fun (b, h) => ("refs/remotes/origin/" ++ b, .hash h)) ++
      (r.refsBelow (tagName "")).map fun (t, h) => (tagName t, .hash h) }

/-- A copy of a repository: its tags, the branch that is asked for or the current one, and, if none
is asked for, all branches as those of its origin. -/
def clone (r : Repository) (branch : Option String) : Except CloneFault Repository :=
  let branches := r.refsBelow (branchName "")
  if branches.isEmpty then .error .blank
  else
    match branch with
    | none =>
      match r.target? "HEAD" with
      | none => .error .blank
      | some h => .ok (r.copyWith branches r.currentBranch h)
    | some b =>
      match branches.lookup b with
      | none => .error (.noBranch (branchName b))
      | some h => .ok (r.copyWith [(b, h)] (branchName b) h)

/-! ### Hashes -/

/-- A hexadecimal digit in lower case; none if it is no such digit. -/
def hexLower? (c : Char) : Option Char :=
  let l := c.toLower
  if l.isDigit || ('a' ≤ l && l ≤ 'f') then some l else none

/-- The hashes of all objects that names may stand for. -/
def hashes (r : Repository) : List String := r.commits.map (·.hash) ++ r.tagObjects.map (·.1)

/-- The hashes that a text is the start of. Pairs of digits may be in either case; a digit without
a partner has to be spelled as in the hash. -/
def hashesFrom (r : Repository) (text : String) : List String :=
  let cs := text.toList
  let even := cs.length / 2 * 2
  match cs with
  | [] => []
  | _ =>
    match (cs.take even).mapM hexLower? with
    | none => []
    | some lower =>
      r.hashes.filter fun h =>
        lower.isPrefixOf h.toList && (even == cs.length || cs.isPrefixOf h.toList)

end Repository

end Lisplet
