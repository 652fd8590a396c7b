import Lisplet.Git.Source
import Lisplet.Limits
import Lisplet.Path
import Lisplet.Yaml.Shape

/-!
# Manifests

A project is described by a manifest: its name, its main script, limits on reading, and the
repository that the script is kept in.

* `Manifest.Draft`: a manifest as it is written;
* `Manifest.Draft.issues`: every rule that it breaks;
* `Manifest.Draft.validate`: the verdict on it;
* `Manifest.Draft.toManifest`: the manifest that it describes.
-/

namespace Lisplet

/-- The description of a project. -/
structure Manifest where
  /-- Where the manifest is kept. -/
  path : String
  name : String
  main : String
  limits : Limits := {}
  source : Option GitSource := none
  deriving DecidableEq, Repr, Inhabited

namespace Manifest

/-- The name of the file that holds a manifest. -/
def fileName : String := "trivial.yml"

/-- Where the main script is kept: its path starts at the manifest's directory. -/
def mainPath (m : Manifest) : String :=
  if Path.isAbsolute m.main then m.main else Path.join (Path.directory m.path) m.main

/-- The limits that a manifest states. -/
structure DraftLimits where
  tokenizerReads : Option Int := none
  parserReads : Option Int := none
  deriving DecidableEq, Repr, Inhabited

/-- The repository that a manifest states. -/
structure DraftSource where
  git : String := ""
  rev : String := ""
  tag : String := ""
  branch : String := ""
  deriving DecidableEq, Repr, Inhabited

/-- A manifest as it is written. -/
structure Draft where
  name : String := ""
  main : String := ""
  limits : Option DraftLimits := none
  source : Option DraftSource := none
  deriving DecidableEq, Repr, Inhabited

/-- A rule that a manifest breaks. -/
inductive Issue where
  | nameMissing
  | mainMissing
  | negativeTokenizerReads (n : Int)
  | negativeParserReads (n : Int)
  | gitMissing
  | manySelectors
  deriving DecidableEq, Repr, Inhabited

/-- The wording of an issue. -/
def Issue.text : Issue → String
  | .nameMissing => "name must be provided"
  | .mainMissing => "main must be provided"
  | .negativeTokenizerReads n =>
    "limits.tokenizer_reads must not be negative (got " ++ toString n ++ ")"
  | .negativeParserReads n => "limits.parser_reads must not be negative (got " ++ toString n ++ ")"
  | .gitMissing => "source.git must be provided"
  | .manySelectors => "source accepts only one of rev, tag, or branch"

/-- The report of a list of issues. -/
def report (issues : List Issue) : String :=
  "manifest validation failed:" ++ String.join (issues.map fun i => "\n- " ++ i.text)

/-- An issue about a limit that is stated and negative. -/
def negative (issue : Int → Issue) : Option Int → List Issue
  | some n => if n < 0 then [issue n] else []
  | none => []

namespace DraftLimits

/-- The issues of stated limits. -/
def issues (l : DraftLimits) : List Issue :=
  negative .negativeTokenizerReads l.tokenizerReads ++ negative .negativeParserReads l.parserReads

/-- The limits that are stated; one that is not stated is zero. -/
def toLimits (l : DraftLimits) : Limits := ⟨l.tokenizerReads.getD 0, l.parserReads.getD 0⟩

end DraftLimits

namespace DraftSource

/-- The texts of which a manifest may fill in one. -/
def selectors (s : DraftSource) : List String := [s.rev, s.tag, s.branch]

/-- The issues of a stated repository. -/
def issues (s : DraftSource) : List Issue :=
  (if Text.isBlankText s.git then [.gitMissing] else []) ++
    if 1 < GitSource.filled s.selectors then [.manySelectors] else []

/-- The source of a script at a path of the stated repository. -/
def toGitSource (path : String) (s : DraftSource) : GitSource where
  url := Text.trim s.git
  rev := Text.trim s.rev
  tag := Text.trim s.tag
  branch := Text.trim s.branch
  path

end DraftSource

namespace Draft

/-- Every rule that a manifest breaks. -/
def issues (d : Draft) : List Issue :=
  (if Text.isBlankText d.name then [.nameMissing] else []) ++
    (if Text.isBlankText d.main then [.mainMissing] else []) ++
    (d.limits.map (·.issues)).getD [] ++ (d.source.map (·.issues)).getD []

/-- Accept a manifest that breaks no rule. -/
def validate (d : Draft) : Except (List Issue) Unit :=
  match d.issues with
  | [] => .ok ()
  | issues => .error issues

/-- The manifest that a draft kept at a path describes. -/
def toManifest (path : String) (d : Draft) : Manifest where
  path
  name := Text.trim d.name
  main := Text.trim d.main
  limits := (d.limits.map (·.toLimits)).getD {}
  source := d.source.map (·.toGitSource (Text.trim d.main))

/-- The shape of stated limits. -/
def limitsShape : Yaml.Shape :=
  .record "driver.limitsFile"
    [("tokenizer_reads", .optional .integer), ("parser_reads", .optional .integer)]

/-- The shape of a stated repository. -/
def sourceShape : Yaml.Shape :=
  .record "driver.sourceFile" [("git", .text), ("rev", .text), ("tag", .text), ("branch", .text)]

/-- The shape of a manifest. -/
def shape : Yaml.Shape :=
  .record "driver.manifestFile"
    [("name", .text), ("main", .text), ("limits", .optional limitsShape),
      ("source", .optional sourceShape)]

/-- The text of a field; a field that is absent is empty. -/
def textOf (d : Yaml.Datum) (field : String) : String :=
  match d.field? field with
  | some (.text s) => s
  | _ => ""

/-- The integer of a field, if it has one. -/
def integerOf? (d : Yaml.Datum) (field : String) : Option Int :=
  match d.field? field with
  | some (.integer n) => some n
  | _ => none

/-- The draft that a decoded document holds. -/
def ofDatum (d : Yaml.Datum) : Draft where
  name := textOf d "name"
  main := textOf d "main"
  limits := (d.field? "limits").map fun l =>
    { tokenizerReads := integerOf? l "tokenizer_reads", parserReads := integerOf? l "parser_reads" }
  source := (d.field? "source").map fun s =>
    { git := textOf s "git", rev := textOf s "rev", tag := textOf s "tag"
      branch := textOf s "branch" }

end Draft

/-- Why a text is not a manifest. -/
inductive Fault where
  | blank
  | unreadable (f : Yaml.DecodeFault)
  | invalid (issues : List Issue)
  deriving Repr

/-- Read the text of the manifest kept at a path. -/
def ofText (path text : String) : Except Fault Manifest :=
  match Yaml.decode Draft.shape text with
  | .error f => .error (.unreadable f)
  | .ok none => .error .blank
  | .ok (some d) =>
    let draft := Draft.ofDatum d
    match draft.validate with
    | .ok () => .ok (draft.toManifest path)
    | .error issues => .error (.invalid issues)

end Manifest

end Lisplet
