import Lisplet.Yaml.Fault

/-!
# Block scalars

A block scalar is the indented lines after its header. A literal one keeps its line breaks; a
folded one joins lines by a space, except around lines that start with a blank. The header may
state the indentation, and whether the line breaks at the end are kept or stripped.
-/

namespace Lisplet.Yaml.Block

/-- What becomes of the line breaks at the end. -/
inductive Chomping where
  | clip
  | strip
  | keep
  deriving DecidableEq, Repr, Inhabited

/-- The chomping that a sign states. -/
def chomping? : Option Char → Option Chomping
  | some '+' => some .keep
  | some '-' => some .strip
  | _ => none

/-- Read an indentation of one digit, 0 if there is none. -/
def indentation (start : Mark) (c : Cursor) : Except Fault (Nat × Cursor) :=
  match c.peek with
  | some x =>
    if x = '0' then .error (.inToken start c.mark .zeroIndentation)
    else if x.isDigit then .ok (x.toNat - 0x30, c.skip)
    else .ok (0, c)
  | none => .ok (0, c)

/-- Read a header after its first character: a chomping and an indentation in either order. -/
def header (start : Mark) (c : Cursor) : Except Fault (Chomping × Nat × Cursor) := do
  match chomping? c.peek with
  | some k =>
    let (n, c) ← indentation start c.skip
    return (k, n, c)
  | none =>
    let (n, c) ← indentation start c
    match if n = 0 then none else chomping? c.peek with
    | some k => return (k, n, c.skip)
    | none => return (.clip, n, c)

/-- Skip indentation and empty lines; `indent` is 0 as long as it is not known. Returns the line
breaks and the greatest column reached. -/
def breaks (start : Mark) (indent : Nat) :
    Nat → List Char → Nat → Cursor → Except Fault (List Char × Nat × Cursor)
  | 0, lines, widest, c => .ok (lines, widest, c)
  | fuel + 1, lines, widest, c =>
    let spaces := (c.rest.takeWhile (· = ' ')).length
    let c := c.skipMany (if indent = 0 then spaces else min spaces (indent - c.mark.column))
    let widest := max widest c.mark.column
    if (indent = 0 || c.mark.column < indent) && c.at? '\t' then
      .error (.inToken start c.mark .tabInBlock)
    else if c.within isBreak then
      let (line, c) := c.readBreak
      breaks start indent fuel (lines ++ line) widest c
    else .ok (lines, widest, c)

/-- The content of a block scalar as far as it was read. -/
structure Content where
  text : List Char := []
  /-- The break at the end of the last line. -/
  lineBreak : List Char := []
  /-- The breaks of empty lines after it. -/
  emptyLines : List Char := []
  /-- Whether the last line starts with a blank. -/
  blankStart : Bool := false

/-- Read the lines of a block scalar. -/
def lines (literal : Bool) (start : Mark) (indent : Nat) :
    Nat → Content → Cursor → Except Fault (Content × Cursor)
  | 0, t, c => .ok (t, c)
  | fuel + 1, t, c =>
    if c.mark.column = indent && !c.rest.isEmpty then do
      let blank := c.within isBlank
      let folded := !literal && !t.blankStart && !blank && t.lineBreak.head? = some '\n'
      let joint := if folded then (if t.emptyLines.isEmpty then [' '] else []) else t.lineBreak
      let (line, c) := c.takeWhile (!isBreak ·)
      let (lineBreak, c) := c.readBreak
      let (emptyLines, _, c) ← breaks start indent (c.rest.length + 1) [] 0 c
      lines literal start indent fuel
        { text := t.text ++ joint ++ t.emptyLines ++ line
          lineBreak, emptyLines, blankStart := blank } c
    else .ok (t, c)

/-- Read a block scalar inside the given indentation; the cursor stands at its first character. -/
def read (literal : Bool) (outer : Int) (c : Cursor) : Except Fault (String × Cursor) := do
  let start := c.mark
  let (chomping, increment, c) ← header start c.skip
  let c := c.skipWhile isBlank
  let c := if c.at? '#' then c.skipWhile (!isBreak ·) else c
  if !endsLine c.peek then .error (.inToken start c.mark .lineEnd)
  let c := c.skipBreak
  let stated := if increment = 0 then 0 else outer.toNat + increment
  let (emptyLines, widest, c) ← breaks start stated (c.rest.length + 1) [] 0 c
  let indent := if stated = 0 then max widest (max (outer + 1).toNat 1) else stated
  let (t, c) ← lines literal start indent (c.rest.length + 1) { emptyLines } c
  let ending :=
    match chomping with
    | .strip => []
    | .clip => t.lineBreak
    | .keep => t.lineBreak ++ t.emptyLines
  return (String.ofList (t.text ++ ending), c)

end Lisplet.Yaml.Block
