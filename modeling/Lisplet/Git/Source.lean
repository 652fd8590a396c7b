import Lisplet.Text.Blank

/-!
# Scripts in a repository

A script may be kept in a git repository. Its source names the repository, the script's path there,
and at most one of a revision, a tag and a branch to read it from.

* `GitSource.required`, `GitSource.revision`: what each rule asks of a source;
* `GitSource.check`: a source's request, or the first rule it breaks.
-/

namespace Lisplet

/-- Where a script is kept. Blanks around its texts do not count. -/
structure GitSource where
  url : String := ""
  rev : String := ""
  tag : String := ""
  branch : String := ""
  path : String := ""
  deriving DecidableEq, Repr, Inhabited

/-- What is asked of a repository. -/
structure GitRequest where
  url : String
  path : String
  /-- The expression that names the commit. -/
  revision : String
  /-- The commit as the source names it. -/
  descriptor : String
  /-- The branch that was chosen, if one was. -/
  branch : Option String
  deriving DecidableEq, Repr, Inhabited

/-- A rule of sources that is broken. -/
inductive GitMisuse where
  | urlMissing
  | pathMissing
  | manySelectors
  deriving DecidableEq, Repr, Inhabited

/-- The wording of a broken rule. -/
def GitMisuse.message : GitMisuse → String
  | .urlMissing => "git source: URL required"
  | .pathMissing => "git source: script path required"
  | .manySelectors => "git source: only one of rev, tag, or branch may be set"

namespace GitSource

/-- How many texts are not blank. -/
def filled (texts : List String) : Nat := texts.countP fun s => !Text.isBlankText s

/-- The texts of which a source may fill in one. -/
def selectors (s : GitSource) : List String := [s.rev, s.tag, s.branch]

/-- The revision that a source selects, its description, and its branch. -/
def selection (s : GitSource) : String × String × Option String :=
  let rev := Text.trim s.rev
  let tag := Text.trim s.tag
  let branch := Text.trim s.branch
  if !rev.isEmpty then (rev, rev, none)
  else if !tag.isEmpty then ("refs/tags/" ++ tag, tag, none)
  else if !branch.isEmpty then ("refs/heads/" ++ branch, branch, some branch)
  else ("HEAD", "HEAD", none)

/-- The selection of a source that fills in one selector at most. -/
def revision (s : GitSource) : Except GitMisuse (String × String × Option String) :=
  if 1 < filled s.selectors then .error .manySelectors else .ok s.selection

/-- A text that has to be filled in, without the blanks around it. -/
def required (misuse : GitMisuse) (text : String) : Except GitMisuse String :=
  if (Text.trim text).isEmpty then .error misuse else .ok (Text.trim text)

/-- The request that a source makes. -/
def check (s : GitSource) : Except GitMisuse GitRequest := do
  let url ← required .urlMissing s.url
  let path ← required .pathMissing s.path
  let (revision, descriptor, branch) ← s.revision
  return { url, path, revision, descriptor, branch }

end GitSource

end Lisplet
