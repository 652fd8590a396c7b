import Lisplet.Token
import Lisplet.Token.Position

/-!
# Scanning

A source is scanned one character at a time by a machine with three modes: between tokens, inside
a run (a number, a symbol or a quote), and inside a string. Every attempt to read a character is
counted. The character that ends a run is read twice, once to end the run and once to start what
follows it, and running into the end of the source counts as well: once between tokens, and once
more when the source ends inside a token.

Reading stops as soon as the number of attempts would exceed the cap. If characters are left at
that moment the scan is *truncated*, and a token that was being read is dropped.

* `Scan.Mode`, `Scan.State`, `Scan.step`: the machine;
* `scan`: the tokens of a source, the number of attempts, and whether the cap cut it short.
-/

namespace Lisplet

/-- The cap on read attempts that a limit stands for; a limit that is not positive stands for
the usual one. -/
def effectiveCap (limit : Int) : Nat := if 0 < limit then limit.toNat else 10000

/-! ### Character classes -/

/-- A character that may start a symbol. -/
def isSymbolStart (c : Char) : Bool :=
  c.isAlpha || c = '+' || c = '-' || c = '/' || c = '*' || c = '=' || c = ':' || c = '>' ||
    c = '<' || c = '?' || c = '!'

/-- A character that may go on a symbol. -/
def isSymbolPart (c : Char) : Bool := isSymbolStart c || c.isDigit

/-- A character that may go on a number. -/
def isNumberPart (c : Char) : Bool := c.isDigit || c = '.'

/-- Whether a number starts at `c`, given the character after it: at a digit, or at a minus sign
directly before a digit. -/
def startsNumber (c : Char) (next : Option Char) : Bool :=
  c.isDigit || (c = '-' && next.any Char.isDigit)

namespace Scan

/-- A token that lasts as long as its characters are of one class. -/
inductive Run where
  | number
  | symbol
  | quote
  deriving DecidableEq, Repr

/-- The kind of token that a run becomes. -/
def Run.kind : Run → TokenKind
  | .number => .number
  | .symbol => .symbol
  | .quote => .quote

/-- The characters that go on a run. -/
def Run.accepts : Run → Char → Bool
  | .number => isNumberPart
  | .symbol => isSymbolPart
  | .quote => isSymbolPart

/-- What the machine is in the middle of. Texts are kept newest character first. -/
inductive Mode where
  | between
  | run (kind : Run) (text : List Char)
  | string (text : List Char) (escaped : Bool)
  deriving DecidableEq, Repr

/-- The state of the machine between two characters. -/
structure State where
  mode : Mode := .between
  /-- Attempts to read so far. -/
  reads : Nat := 0
  /-- Finished tokens, newest first. -/
  tokens : List Token := []
  deriving DecidableEq, Repr

namespace State

/-- One more attempt to read. -/
def count (s : State) : State := { s with reads := s.reads + 1 }

/-- Go on in another mode. -/
def become (s : State) (mode : Mode) : State := { s with mode }

/-- Finish a token, given newest character first. -/
def emit (s : State) (kind : TokenKind) (text : List Char) : State :=
  { s with mode := .between, tokens := ⟨kind, String.ofList text.reverse⟩ :: s.tokens }

end State

/-- What one character does to the machine. -/
inductive Step where
  /-- The character was taken. -/
  | next (s : State)
  /-- The cap was reached with this character still unread. -/
  | cut (s : State)
  /-- The character starts no token. -/
  | reject (s : State)
  deriving DecidableEq, Repr

/-- Take a character between two tokens. -/
def start (cap : Nat) (s : State) (c : Char) (next : Option Char) : Step :=
  let s := s.count
  if cap < s.reads then .cut s
  else if c = ' ' || c = '\n' then .next s
  else if c = '(' then .next (s.emit .openParen [c])
  else if c = ')' then .next (s.emit .closeParen [c])
  else if c = '\x22' then .next (s.become (.string [] false))
  else if startsNumber c next then .next (s.become (.run .number [c]))
  else if c = '\x27' then .next (s.become (.run .quote []))
  else if isSymbolStart c then .next (s.become (.run .symbol [c]))
  else .reject s

/-- Take one character, `next` being the one after it. -/
def step (cap : Nat) (s : State) (c : Char) (next : Option Char) : Step :=
  match s.mode with
  | .between => start cap s c next
  | .run kind text =>
    let s := s.count
    if cap < s.reads then .cut (s.become .between).count
    else if kind.accepts c then .next (s.become (.run kind (c :: text)))
    else start cap (s.emit kind.kind text) c next
  | .string text escaped =>
    let s := s.count
    if cap < s.reads then .cut (s.become .between).count
    else if escaped then .next (s.become (.string (c :: text) false))
    else if c = '\\' then .next (s.become (.string text true))
    else if c = '\x22' then .next (s.emit .string text)
    else .next (s.become (.string (c :: text) false))

/-- The end of the source: a run is finished, a string without its closing quote is dropped. -/
def finish (s : State) : State :=
  match s.mode with
  | .between => s.count
  | .run kind text => (s.emit kind.kind text).count.count
  | .string _ _ => (s.become .between).count.count

end Scan

/-- What scanning a source comes to. -/
structure Scan where
  /-- Attempts to read. -/
  reads : Nat
  /-- Whether the cap stopped the scan before the end of the source. -/
  truncated : Bool
  /-- The tokens, or the offset and the character where no token starts. -/
  result : Except (Nat × Char) (List Token)

namespace Scan

/-- Run the machine over the characters that are left, the first one standing at `offset`. -/
def go (cap : Nat) : State → Nat → List Char → Scan
  | s, _, [] =>
    let s := finish s
    ⟨s.reads, false, .ok s.tokens.reverse⟩
  | s, offset, c :: rest =>
    match step cap s c rest.head? with
    | .next s => go cap s (offset + 1) rest
    | .cut s => ⟨s.reads, true, .ok s.tokens.reverse⟩
    | .reject s => ⟨s.reads, false, .error (offset, c)⟩

/-- The tokens of a scanned source, or the fault in it. -/
def tokens (source : List Char) (s : Scan) : Except SyntaxError (List Token) :=
  match s.result with
  | .ok ts => .ok ts
  | .error (offset, c) => .error (.locate source offset c)

end Scan

/-- Scan a source with at most `cap` attempts to read. -/
def scan (cap : Nat) (source : List Char) : Scan := Scan.go cap {} 0 source

/-- The tokens of a source under a limit, or the fault in it. -/
def tokenize (limit : Int) (source : String) : Except SyntaxError (List Token) :=
  (scan (effectiveCap limit) source.toList).tokens source.toList

/-- How many lists a source leaves open: opening minus closing parentheses among its tokens under
the usual cap, and 0 for a source that cannot be scanned. -/
def openLists (source : String) : Int :=
  match tokenize 0 source with
  | .ok ts => Token.balance ts
  | .error _ => 0

end Lisplet
