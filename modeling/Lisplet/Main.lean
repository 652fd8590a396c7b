import Lisplet.CommandLine

/-!
# The program

The command line on the files and the streams of the machine it runs on. Everything that decides
is in `CommandLine` and `Repl`; here files are read, lines are asked for and texts are written.
-/

namespace Lisplet.Main

/-- The fault of an error that the machine reports. -/
def diskFault : IO.Error → DiskFault
  | .noFileOrDirectory _ _ _ | .noSuchThing _ _ _ => .notFound
  | .inappropriateType _ code _ => if code = 21 then .isDirectory else .notDirectory
  | .permissionDenied _ _ _ => .denied
  | .invalidArgument _ _ _ => .invalidName
  | e => .other (toString e)

/-- Answer a question about a path, telling what is wrong with the path if it fails. -/
def attempt {α : Type} (path : String) (question : IO α) : IO (Except DiskFault α) := do
  if path.isEmpty then return .error .notFound
  try
    return .ok (← question)
  catch e => return .error (diskFault e)

/-- The files of the machine. It keeps no repositories that this host could read. -/
def host : Host IO where
  isDirectory path := attempt path do
    return (← ((← IO.currentDir) / path).metadata).type == .dir
  read path := attempt path do
    return String.ofList (Text.decode (← IO.FS.readBinFile path).toList)
  workingDirectory := return (← IO.currentDir).toString
  repository? _ := return none

/-- Write what a session has to say, and forget it. -/
def flush (s : Repl.State) : IO Repl.State := do
  IO.print s.output
  IO.eprint s.errors
  (← IO.getStdout).flush
  return { s with out := [], err := [] }

/-- The answers that the next line of the input gives: more than one if it is too long. -/
def nextAnswers (input : IO.FS.Stream) : IO (List Repl.Answer) := do
  try
    let line ← input.getLine
    if line.isEmpty then return [.eof]
    return (Text.lines (Text.bytes line)).map fun l => .line (String.ofList (Text.decode l.bytes))
  catch e => return [.failure (toString e)]

/-- Prompt and answer until the session ends. -/
partial def converse (input : IO.FS.Stream) (s : Repl.State) (answers : List Repl.Answer) :
    IO (Nat × Repl.State) := do
  let s ← flush (s.print s.prompt)
  let answers ← if answers.isEmpty then nextAnswers input else pure answers
  match Repl.step Interpreter.steps s (answers.headD .eof) with
  | .go s => converse input (← flush s) answers.tail
  | .stop code s => return (code, ← flush s)
  | .exhausted => return (CommandLine.failure, s)

/-- An interactive session, which keeps its history in a file. -/
def session (traced : Bool) : IO Nat := do
  IO.println Repl.banner
  let path := Path.join ((← IO.getEnv "HOME").getD "") History.fileName
  let before := ((← host.read path).toOption.map History.ofText).getD []
  let (code, s) ← converse (← IO.getStdin) (.initial traced) []
  discard (attempt path (IO.FS.writeFile path (History.toText (CommandLine.historyAfter before s))))
  return code

end Lisplet.Main

/-- Carry out the arguments. -/
def main (arguments : List String) : IO UInt32 := do
  match ← Lisplet.CommandLine.start Lisplet.Main.host arguments with
  | .finished o =>
    IO.print o.out
    IO.eprint o.err
    return o.code.toUInt32
  | .exhausted => return Lisplet.CommandLine.failure.toUInt32
  | .session traced => return (← Lisplet.Main.session traced).toUInt32
