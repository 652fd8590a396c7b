import Lisplet.Number.Numeral
import Lisplet.Yaml.Scalar.Gap

/-!
# Quoted scalars

Between single quotes a quote is written twice, and nothing else is special. Between double quotes
a backslash starts an escape, and one at the end of a line joins the line to the next without a
space.
-/

namespace Lisplet.Yaml.Quoted

/-- The characters that an escape with one letter stands for. -/
def simpleEscape? : Char → Option Char
  | '0' => some '\x00'
  | 'a' => some '\x07'
  | 'b' => some '\x08'
  | 't' => some '\t'
  | '\t' => some '\t'
  | 'n' => some '\n'
  | 'v' => some '\x0b'
  | 'f' => some '\x0c'
  | 'r' => some '\r'
  | 'e' => some '\x1b'
  | ' ' => some ' '
  | '\x22' => some '\x22'
  | '\x27' => some '\x27'
  | '\\' => some '\\'
  | 'N' => some '\u0085'
  | '_' => some '\u00a0'
  | 'L' => some '\u2028'
  | 'P' => some '\u2029'
  | _ => none

/-- How many hexadecimal digits follow the letter of an escape. -/
def escapeLength? : Char → Option Nat
  | 'x' => some 2
  | 'u' => some 4
  | 'U' => some 8
  | _ => none

/-- Read an escape; the cursor stands at the backslash. -/
def escape (start : Mark) (c : Cursor) : Except Fault (Char × Cursor) :=
  match c.peekAt 1 with
  | none => .error (.inToken start c.mark .escapeUnknown)
  | some letter =>
    match simpleEscape? letter, escapeLength? letter with
    | some x, _ => .ok (x, c.skipMany 2)
    | none, none => .error (.inToken start c.mark .escapeUnknown)
    | none, some n =>
      let c := (c.skipMany 2).ask n
      let digits := c.rest.take n
      if digits.length = n && digits.all Numeral.isHexDigit then
        let code := Numeral.ofHexDigits digits
        if (0xd800 ≤ code && code ≤ 0xdfff) || 0x10ffff < code then
          .error (.inToken start c.mark .escapeCode)
        else .ok (Char.ofNat code, c.skipMany n)
      else .error (.inToken start c.mark .escapeDigits)

/-- Read the next word of a quoted scalar, newest character first. Tells whether an escaped line
break ended it. -/
def word (single : Bool) (start : Mark) :
    Nat → List Char → Cursor → Except Fault (List Char × Bool × Cursor)
  | 0, text, c => .ok (text, false, c)
  | fuel + 1, text, c =>
    match c.peek with
    | none => .ok (text, false, c)
    | some x =>
      if endsWord (some x) then .ok (text, false, c)
      else if single then
        if x ≠ '\x27' then word single start fuel (x :: text) (c.skip.ask 2)
        else if c.peekAt 1 = some '\x27' then
          word single start fuel ('\x27' :: text) ((c.skipMany 2).ask 2)
        else .ok (text, false, c)
      else if x = '\x22' then .ok (text, false, c)
      else if x ≠ '\\' then word single start fuel (x :: text) (c.skip.ask 2)
      else if (c.peekAt 1).any isBreak then .ok (text, true, (c.ask 3).skip.skipBreak)
      else do
        let (y, c) ← escape start c
        word single start fuel (y :: text) (c.ask 2)

/-- Read a quoted scalar up to its closing quote, newest character first. -/
def words (single : Bool) (start : Mark) :
    Nat → List Char → Cursor → Except Fault (List Char × Cursor)
  | 0, text, c => .ok (text, c)
  | fuel + 1, text, c =>
    let c := c.ask 4
    if c.atDocumentMarker then .error (.inToken start c.mark .markerInQuotes)
    else if c.rest.isEmpty then .error (.inToken start c.mark .endInQuotes)
    else do
      let (text, joined, c) ← word single start c.rest.length text c
      if c.at? (if single then '\x27' else '\x22') then return (text, c.skip)
      let (gap, c) ← Gap.read (fun _ => .ok ()) c.rest.length { broken := joined } c
      words single start fuel (gap.text.reverse ++ text) c

/-- Read a quoted scalar; the cursor stands at its opening quote. -/
def read (single : Bool) (c : Cursor) : Except Fault (String × Cursor) := do
  let (text, d) ← words single c.mark (c.rest.length + 1) [] c.skip
  return (String.ofList text.reverse, d)

end Lisplet.Yaml.Quoted
