import Lisplet.Interpreter
import Lisplet.Text.Blank

/-!
# The interactive session

The session asks for lines and collects them until no list is open; then it handles the collected
text as one input. An input with nothing but white space is skipped, one that starts with a colon
is a command, and any other is added to the history and evaluated, its definitions staying for the
inputs after it.

* `Repl.State`: the machine, the text collected so far, and what was written and remembered;
* `Repl.step`: what one answer to a prompt does;
* `Repl.run`: a whole session.
-/

namespace Lisplet.Repl

/-- The greeting of a session. -/
def banner : String := "trivial repl. Type :quit to exit."

/-- The prompt for a new input. -/
def mainPrompt : String := "trivial> "

/-- The prompt for more of an input. -/
def morePrompt : String := "....... "

/-- What a prompt returns. -/
inductive Answer where
  | line (text : String)
  /-- The user gave up the input. -/
  | abort
  /-- There are no more lines. -/
  | eof
  /-- The line could not be read. -/
  | failure (reason : String)
  deriving DecidableEq, Repr, Inhabited

/-- The state of a session between two prompts. Texts are kept newest first. -/
structure State where
  machine : Machine
  /-- The text of an input that is not complete. -/
  pending : String := ""
  /-- The inputs to remember. -/
  history : List String := []
  /-- What was written to the output. -/
  out : List String := []
  /-- What was written to the error output. -/
  err : List String := []
  deriving Inhabited

/-- What an answer leads to. -/
inductive Next where
  | go (s : State)
  /-- The session ends with an exit code. -/
  | stop (code : Nat) (s : State)
  /-- An evaluation ran out of steps. -/
  | exhausted
  deriving Inhabited

/-- An input as an entry of the history: its lines are joined to one. -/
def historyEntry (text : String) : String :=
  String.ofList (text.toList.map fun c => if c = '\n' then ' ' else c)

namespace State

/-- The session at its start: a frame for the definitions of the user on top of the builtins. -/
def start (traced : Bool) : State := { machine := ({ traced } : Machine).push }

/-- The prompt that is due. -/
def prompt (s : State) : String := if s.pending.isEmpty then mainPrompt else morePrompt

/-- What is collected when a line has been added to the text that is pending. -/
def collected (line : String) (s : State) : String :=
  if s.pending.isEmpty then line else s.pending ++ "\n" ++ line

/-- Add an input to the history. -/
def remember (text : String) (s : State) : State :=
  { s with history := historyEntry text :: s.history }

/-- Write to the output. -/
def print (text : String) (s : State) : State := { s with out := text :: s.out }

/-- Show a value, unless it is undefined. -/
def display (v : Value) (s : State) : State :=
  if v.isUndefined then s else s.print (v.text ++ "\n")

/-- Showing a value changes nothing but the output. -/
theorem exists_display (v : Value) (s : State) : ∃ out, s.display v = { s with out } := by
  unfold display
  split
  · exact ⟨s.out, rfl⟩
  · exact ⟨_, rfl⟩

/-- Write to the error output. -/
def report (text : String) (s : State) : State := { s with err := text :: s.err }

/-- Move what the machine printed and recorded to the outputs. -/
def drain (m : Machine) (s : State) : State :=
  { s with
    machine := { m with printed := [], events := [] }
    out := m.printed.map (· ++ "\n") ++ s.out
    err := m.events.map (·.line ++ "\n") ++ s.err }

/-- The session as it begins, with the events of its start reported. -/
def initial (traced : Bool) : State := let s := start traced; s.drain s.machine

/-- Everything written to the output. -/
def output (s : State) : String := String.join s.out.reverse

/-- Everything written to the error output. -/
def errors (s : State) : String := String.join s.err.reverse

end State

/-- A character in lower case, as far as the names of commands can tell. -/
def lower (c : Char) : Char := if c = 'İ' then 'i' else c.toLower

/-- The name of a command. -/
def commandName (text : String) : String :=
  String.ofList ((Text.trimChars text.toList).map lower)

/-- Evaluate an input and show its value. -/
def evaluate (fuel : Nat) (text : String) (s : State) : Next :=
  match Interpreter.evaluatePersistent fuel {} text s.machine with
  | .exhausted => .exhausted
  | .done (.error e) m => .go (((s.remember text).drain m).report (e.report ++ "\n"))
  | .done (.ok v) m => .go (((s.remember text).drain m).display v)

/-- Handle a complete input. -/
def handle (fuel : Nat) (text : String) (s : State) : Next :=
  match Text.trimChars text.toList with
  | [] => .go s
  | ':' :: _ =>
    if commandName text = ":quit" || commandName text = ":q" then .stop 0 s
    else .go (s.print "unknown command. Type :quit to exit.\n")
  | _ => evaluate fuel text s

/-- Take the answer to a prompt. -/
def step (fuel : Nat) (s : State) : Answer → Next
  | .line text =>
    if openLists (s.collected text) ≤ 0 then
      handle fuel (s.collected text) { s with pending := "" }
    else .go { s with pending := s.collected text }
  | .abort => .go { s with pending := "" }
  | .eof =>
    if s.pending.isEmpty then .stop 0 (s.print "\n")
    else handle fuel s.pending { s with pending := "" }
  | .failure reason => .stop 1 (s.report ("read error: " ++ reason ++ "\n"))

/-- How a session went. -/
structure Transcript where
  code : Nat
  final : State
  /-- Every prompt shown, in order. -/
  prompts : List String

/-- Take the answer to the prompt that is due, which is written to the output if `echo` is set. -/
def ask (fuel : Nat) (echo : Bool) (s : State) (a : Answer) : Next :=
  step fuel (if echo then s.print s.prompt else s) a

/-- Run a session on the answers to its prompts, with no more lines after them; none if an
evaluation runs out of steps. `shown` are the prompts so far, newest first. -/
def run (fuel : Nat) (echo : Bool) : List String → State → List Answer → Option Transcript
  | shown, s, [] =>
    match ask fuel echo s .eof with
    | .exhausted => none
    | .stop code final => some ⟨code, final, (s.prompt :: shown).reverse⟩
    | .go next =>
      -- The pending text is handled, so the next end of input ends the session.
      match ask fuel echo next .eof with
      | .stop code final => some ⟨code, final, (next.prompt :: s.prompt :: shown).reverse⟩
      | _ => none
  | shown, s, a :: rest =>
    match ask fuel echo s a with
    | .exhausted => none
    | .stop code final => some ⟨code, final, (s.prompt :: shown).reverse⟩
    | .go next => run fuel echo (s.prompt :: shown) next rest

end Lisplet.Repl
