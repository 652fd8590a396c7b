import Lisplet.Text.Blank
import Lisplet.Text.Quoted

/-!
# Events

What a run can be asked to record about itself. An event is written as one line: its level, its
message and its fields. A text in a field is quoted if it could be misread.
-/

namespace Lisplet

/-- Something that happened in a run. -/
inductive Event where
  /-- A frame was pushed; the stack has this depth after it. -/
  | pushed (depth : Nat)
  /-- Frames were released; the stack has this depth after it. -/
  | popped (depth : Nat) (removed : Nat)
  | calledBuiltin (name : String) (args : Nat)
  | calledFunction (params args : Nat)
  | parsed (tokens nodes : Nat)
  /-- The cap on scanning was reached after so many tokens. -/
  | scanCut (tokens : Nat)
  /-- The cap on reading was reached in so many tokens. -/
  | readCut (tokens : Nat)
  | loaded (name origin : String)
  deriving DecidableEq, Repr, Inhabited

namespace Event

/-- Whether a character makes a text need quotes. -/
def isUnclear (c : Char) : Bool :=
  if c.toNat < 0x80 then c.toNat ≤ 0x20 || c = '=' || c = '\x22'
  else c = '�' || Text.isBlank c || !Text.isPrintable c

/-- A text as the value of a field. -/
def fieldText (s : String) : String :=
  if s.isEmpty || s.any isUnclear then Text.quote s else s

/-- A field with a number. -/
def count (key : String) (n : Nat) : String := " " ++ key ++ "=" ++ toString n

/-- A field with a text. -/
def field (key text : String) : String := " " ++ key ++ "=" ++ fieldText text

/-- A line of a given level and message. -/
def record (level message fields : String) : String :=
  "level=" ++ level ++ field "msg" message ++ fields

/-- The line of an event. -/
def line : Event → String
  | .pushed depth => record "DEBUG" "push frame" (count "depth" depth)
  | .popped depth _ => record "DEBUG" "pop frame" (count "depth" depth)
  | .calledBuiltin name args =>
    record "DEBUG" "call builtin" (field "name" name ++ count "args" args)
  | .calledFunction params args =>
    record "DEBUG" "call function" (count "params" params ++ count "args" args)
  | .parsed tokens nodes =>
    record "DEBUG" "parsed source" (count "tokens" tokens ++ count "nodes" nodes)
  | .scanCut tokens =>
    record "WARN" "tokenizer read cap reached; input truncated" (count "tokens" tokens)
  | .readCut tokens =>
    record "WARN" "parser read cap reached; tokens dropped" (count "tokens" tokens)
  | .loaded name origin =>
    record "DEBUG" "loaded program" (field "name" name ++ field "origin" origin)

end Event

end Lisplet
