import Lisplet.CommandLine.Flag
import Lisplet.History
import Lisplet.Program
import Lisplet.Repl

/-!
# The command line

The commands: running a program, an interactive session, and showing the tokens or the tree of a
source. Commands that need no more than the files of a host are carried out at once; a session is
left to whoever can ask for lines.

* `CommandLine.start`: what the arguments come to;
* `CommandLine.session`: a whole session on the lines of a text;
* `CommandLine.run`: both together.
-/

namespace Lisplet.CommandLine

/-- What a command writes and its exit code. -/
structure Outcome where
  code : Nat
  out : String := ""
  err : String := ""
  /-- The text of the history file to write, if there is one to write. -/
  history : Option String := none
  deriving DecidableEq, Repr, Inhabited

/-- What is left to do once the arguments are read. -/
inductive Task where
  | finished (o : Outcome)
  | session (traced : Bool)
  /-- An evaluation ran out of steps. -/
  | exhausted
  deriving Repr, Inhabited

/-- The exit code of a failed command. -/
def failure : Nat := 1

/-- The exit code of a command that is not understood. -/
def misuse : Nat := 2

/-- The name and the version of the tool. -/
def version : String := "trivial 0.1.0-dev"

/-- The list of commands. -/
def usage : String :=
  "usage:\n" ++
  "  trivial run [--max-reads N] [--trace] [file.tl | dir]\n" ++
  "  trivial run --git URL [--rev R | --tag T | --branch B] PATH\n" ++
  "  trivial repl [--trace]\n" ++
  "  trivial tokens [--max-reads N] FILE\n" ++
  "  trivial ast [--max-reads N] FILE\n" ++
  "  trivial version\n" ++
  "\n" ++
  "Without a file, run loads " ++ Manifest.fileName ++ " from the current directory.\n"

/-- The flag that asks for a log of events. -/
def traceFlag : Flag := ⟨"trace", .switch, "log evaluation events to stderr"⟩

/-- The flags of the command that runs a program. -/
def runFlags : FlagSet where
  command := "run"
  flags :=
    [⟨"branch", .text, "git branch to read"⟩,
     ⟨"git", .text, "read the script from this git repository"⟩,
     ⟨"max-reads", .integer,
       "cap tokenizer and parser reads (0 keeps the manifest or default cap)"⟩,
     ⟨"rev", .text, "git revision to read"⟩,
     ⟨"tag", .text, "git tag to read"⟩,
     traceFlag]

/-- The flags of the command for a session. -/
def replFlags : FlagSet := ⟨"repl", [traceFlag]⟩

/-- The flags of a command on a single file. -/
def fileFlags (command : String) : FlagSet :=
  ⟨command, [⟨"max-reads", .integer, "cap tokenizer and parser reads"⟩]⟩

/-- A command that is not understood. -/
def misused (text : String) : Outcome := { code := misuse, err := text }

/-- A program that cannot be loaded. -/
def notLoaded (f : LoadFault) : Outcome :=
  { code := failure, err := "failed to load program: " ++ f.message ++ "\n" }

/-- Go on with the settings of a command, or report what is wrong with its arguments. -/
def withFlags {m : Type → Type} [Monad m] {α : Type} (set : FlagSet) (arguments : List String)
    (stop : Outcome → α) (go : Settings → List String → m α) : m α :=
  match set.parse arguments with
  | .settings s rest => go s rest
  | .help => pure (stop { code := 0, err := set.usage })
  | .fault f => pure (stop (misused (f.message ++ "\n" ++ set.usage)))

/-! ### Running programs -/

/-- The machine that a program starts on. -/
def loaded (program : Program) (traced : Bool) : Machine :=
  ({ traced } : Machine).note (.loaded program.name program.origin)

/-- What the evaluation of a program comes to: its output, its log and the report of a fault. -/
def Task.ofEvaluation : Lisplet.Outcome Value → Task
  | .exhausted => .exhausted
  | .done (.ok _) m => .finished { code := 0, out := m.output, err := m.log }
  | .done (.error e) m =>
    .finished { code := failure, out := m.output, err := m.log ++ e.report ++ "\n" }

/-- Evaluate a loaded program. -/
def execute (program : Program) (limits : Limits) (traced : Bool) : Task :=
  .ofEvaluation
    (Interpreter.evaluateSource Interpreter.steps limits program.source (loaded program traced))

variable {m : Type → Type} [Monad m]

/-- What the settings and arguments of a run ask to load, or why they are not understood. -/
def runTarget (s : Settings) (rest : List String) : Except String (GitSource ⊕ String) :=
  let maxReads := s.integer "max-reads"
  if maxReads < 0 then
    .error ("--max-reads must not be negative (got " ++ toString maxReads ++ ")\n")
  else if 1 < rest.length then
    .error ("unexpected arguments: " ++ " ".intercalate (rest.drop 1) ++ "\n")
  else if s.text "git" ≠ "" then
    match rest with
    | [path] =>
      .ok (.inl { url := s.text "git", rev := s.text "rev", tag := s.text "tag"
                  branch := s.text "branch", path })
    | _ => .error "trivial run --git requires the script path inside the repository\n"
  else if s.text "rev" ≠ "" || s.text "tag" ≠ "" || s.text "branch" ≠ "" then
    .error "--rev, --tag and --branch require --git\n"
  else .ok (.inr (rest.headD ""))

/-- The command that runs a program. -/
def runCommand (host : Host m) (arguments : List String) : m Task :=
  withFlags runFlags arguments .finished fun s rest => do
    match runTarget s rest with
    | .error text => return .finished (misused text)
    | .ok target =>
      let program ←
        match target with
        | .inl source => Program.ofGit host source
        | .inr path => Program.load host path
      match program with
      | .error f => return .finished (notLoaded f)
      | .ok program =>
        let limits := program.limits.override (.both (s.integer "max-reads"))
        return execute program limits (s.switch "trace")

/-! ### Showing sources -/

/-- The warning that a source is longer than what was read of it. -/
def truncationWarning : String := "warning: tokenizer read cap reached; output truncated\n"

/-- The tokens of a source, one on a line. -/
def showTokens (maxReads : Int) (source : String) : Outcome :=
  let scanned := scan (effectiveCap maxReads) source.toList
  match scanned.tokens source.toList with
  | .error e => { code := failure, err := (Fault.unreadable e).report ++ "\n" }
  | .ok tokens =>
    { code := 0
      out := String.join (tokens.map fun t => t.kind.name ++ "\t" ++ t.text ++ "\n")
      err := if scanned.truncated then truncationWarning else "" }

/-- The tree of a source, one atom on a line. -/
def showTree (maxReads : Int) (source : String) : Outcome :=
  match Node.ofSource maxReads source with
  | .error e => { code := failure, err := (Fault.unreadable e).report ++ "\n" }
  | .ok root => { code := 0, out := root.outline ++ "\n" }

/-- A command that shows the source in a single file. -/
def fileCommand (host : Host m) (command : String) (shown : Int → String → Outcome)
    (arguments : List String) : m Outcome :=
  withFlags (fileFlags command) arguments id fun s rest => do
    let maxReads := s.integer "max-reads"
    match rest with
    | [path] =>
      if maxReads < 0 then return misused (usageLine command)
      else
        match ← Program.ofFile host path with
        | .error f => return notLoaded f
        | .ok program => return shown maxReads program.source
    | _ => return misused (usageLine command)
where
  /-- How the command is used. -/
  usageLine (command : String) : String :=
    "usage: trivial " ++ command ++ " [--max-reads N] FILE\n"

/-! ### Sessions -/

/-- The command for a session. -/
def replCommand (arguments : List String) : m Task :=
  withFlags replFlags arguments .finished fun s rest =>
    match rest with
    | [] => pure (.session (s.switch "trace"))
    | _ => pure (.finished (misused ("unexpected arguments: " ++ " ".intercalate rest ++ "\n")))

/-- The entries of the history after a session, given those before it. -/
def historyAfter (before : List String) (s : Repl.State) : List String :=
  s.history.reverse.foldl History.append before

/-- A session on the lines of a text, given the text of the history file, if there is one. None if
an evaluation runs out of steps. -/
def session (traced : Bool) (history : Option String) (input : String) : Option Outcome :=
  let answers := (Text.lines (Text.bytes input)).map fun l =>
    Repl.Answer.line (String.ofList (Text.decode l.bytes))
  (Repl.run Interpreter.steps true [] (.initial traced) answers).map fun t =>
    { code := t.code
      out := Repl.banner ++ "\n" ++ t.final.output
      err := t.final.errors
      history := History.toText
        (historyAfter ((history.map History.ofText).getD []) t.final) }

/-! ### Commands -/

/-- What the arguments come to. -/
def start (host : Host m) : List String → m Task
  | [] => pure (.finished (misused usage))
  | "help" :: _ | "--help" :: _ | "-h" :: _ => pure (.finished { code := 0, out := usage })
  | "version" :: _ | "--version" :: _ | "-V" :: _ =>
    pure (.finished { code := 0, out := version ++ "\n" })
  | "run" :: rest => runCommand host rest
  | "repl" :: rest => replCommand rest
  | "tokens" :: rest => .finished <$> fileCommand host "tokens" showTokens rest
  | "ast" :: rest => .finished <$> fileCommand host "ast" showTree rest
  | a :: rest =>
    if a.toList.head? = some '-' then
      pure (.finished (misused ("unknown flag " ++ a ++ "\n" ++ usage)))
    else runCommand host (a :: rest)

/-- Carry out the arguments, with a text as the input and the history kept in a directory. None if
an evaluation runs out of steps. -/
def run (host : Host m) (home : String) (arguments : List String) (input : String) :
    m (Option Outcome) := do
  match ← start host arguments with
  | .finished o => return some o
  | .exhausted => return none
  | .session traced =>
    let history ← host.read (Path.join home History.fileName)
    return session traced history.toOption input

end Lisplet.CommandLine
