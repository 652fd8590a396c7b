import Lisplet.Yaml.Property
import Lisplet.Yaml.Scalar.Block
import Lisplet.Yaml.Scalar.Plain
import Lisplet.Yaml.Scalar.Quoted
import Lisplet.Yaml.Token.Pending

/-!
# The queue of tokens

Tokens are read ahead of their use, since only a colon after a node tells that the node was a key:
then the token that announces a key, and the one that opens its mapping, are put before the node, or
at the end if the node was taken already. The queue is filled until it holds three tokens and its
first one is not watched, or watched in vain.

Indentation opens and closes block collections; inside flow collections it means nothing.
-/

namespace Lisplet.Yaml

/-- The tokens read ahead, and what is needed to read more of them. -/
structure Queue where
  cursor : Cursor
  /-- Tokens that were not taken yet. -/
  tokens : List Token := []
  /-- How many tokens were taken. -/
  taken : Nat := 0
  started : Bool := false
  /-- The indentation of the innermost block collection, -1 outside of any. -/
  indent : Int := -1
  /-- The indentations around it. -/
  indents : List Int := []
  /-- The nodes that may turn out to be keys. -/
  keys : PendingKeys := {}
  /-- Whether a key may start here. -/
  keyAllowed : Bool := true
  deriving Inhabited

namespace Queue

/-- The queue of a text. -/
def ofText (cs : List Char) : Queue := { cursor := .ofText cs }

/-- The place of the next character. -/
def mark (q : Queue) : Mark := q.cursor.mark

/-- Whether the next character is inside a flow collection. -/
def inFlow (q : Queue) : Bool := q.keys.inFlow

/-- A fault at the next character. -/
def fail {α : Type} (q : Queue) (start : Mark) (p : Problem) : Except Fault α :=
  .error (.inToken start q.mark p)

/-- The deepest nesting of collections. -/
def maxDepth : Nat := 10000

/-- Add a token at the end. -/
def add (q : Queue) (t : Token) : Queue := { q with tokens := q.tokens ++ [t] }

/-- Add a token without extent before the token of a given number, or at the end if that token was
taken. -/
def insert (q : Queue) (number : Nat) (kind : TokenKind) (mark : Mark) : Queue :=
  let t : Token := ⟨kind, mark, mark⟩
  if number < q.taken then q.add t
  else
    let i := number - q.taken
    { q with tokens := q.tokens.take i ++ t :: q.tokens.drop i }

/-- The number of the token that is read next. -/
def nextNumber (q : Queue) : Nat := q.taken + q.tokens.length

/-- Add a token that covers the next `n` characters. -/
def addIndicator (q : Queue) (kind : TokenKind) (n : Nat) : Queue :=
  let cursor := q.cursor.skipMany n
  { q.add ⟨kind, q.mark, cursor.mark⟩ with cursor }

/-! ### Keys -/

/-- Give up the pending key. -/
def dropKey (q : Queue) : Except Fault Queue := do return { q with keys := ← q.keys.drop q.mark }

/-- Take what follows as a pending key, if a key may start here. -/
def saveKey (q : Queue) : Except Fault Queue :=
  if q.keyAllowed then do
    let required := !q.inFlow && q.indent == q.mark.column
    let k : PendingKey := { possible := true, required, number := q.nextNumber, mark := q.mark }
    return { q with keys := ← q.keys.save k }
  else .ok q

/-! ### Indentation -/

/-- Open a block collection if the column is to the right of the current indentation; its token
goes before the token of the given number. -/
def openBlock (q : Queue) (column : Nat) (number : Nat) (kind : TokenKind) (mark : Mark) :
    Except Fault Queue :=
  if !q.inFlow && q.indent < column then
    let q' := { q with indents := q.indent :: q.indents, indent := column }
    if maxDepth < q'.indents.length then
      q.fail q.keys.inner.mark .tooDeep
    else .ok (q'.insert number kind mark)
  else .ok q

/-- Close block collections up to a column. -/
def closeBlocks (column : Int) (mark : Mark) : List Int → Queue → Queue
  | [], q => q
  | outer :: indents, q =>
    if column < q.indent then
      let q := q.add ⟨.blockEnd, mark, mark⟩
      closeBlocks column mark indents { q with indent := outer, indents }
    else q

/-- Close the block collections that a column is to the left of. -/
def unroll (q : Queue) (column : Int) (mark : Mark) : Queue :=
  if q.inFlow then q else closeBlocks column mark q.indents q

/-! ### White space and comments -/

/-- How far ahead a comment is looked for. -/
def commentReach : Nat := 512

/-- How many blanks, line feeds and carriage returns the characters start with, counted up to a
limit. -/
def spaceLength : Nat → List Char → Nat
  | 0, _ => 0
  | _ + 1, [] => 0
  | limit + 1, c :: rest =>
    if isBlank c || c = '\n' || c = '\r' then spaceLength limit rest + 1 else 0

/-- Go past white space of any kind up to an index. -/
def skipSpace : Nat → Nat → Cursor → Cursor
  | 0, _, c => c
  | fuel + 1, target, c =>
    if target ≤ c.mark.index then c
    else if c.within isBreak then skipSpace fuel target c.skipBreak
    else skipSpace fuel target c.skip

/-- How far the next comment is from the end of one, if nothing but white space is between them. A
line separator of Unicode at the end of a comment keeps the next one apart from it. -/
def toNextComment (c : Cursor) : Nat :=
  if c.within fun x => isBreak x && x ≠ '\n' && x ≠ '\r' then 1
  else 1 + spaceLength (commentReach - 1) (c.rest.drop 1)

/-- Go past comments that follow each other, with nothing but white space between them. -/
def skipComments : Nat → Cursor → Cursor
  | 0, c => c
  | fuel + 1, c =>
    if c.at? '#' then
      let c := c.skipWhile (!isBreak ·)
      let n := toNextComment c
      if n < commentReach then
        let c := c.ask (n + 1)
        if c.peekAt n = some '#' then skipComments fuel (skipSpace n (c.mark.index + n) c) else c
      else c
    else c

/-- Go past a comment at the end of the line. -/
def skipLineComment (c : Cursor) : Cursor :=
  if c.afterBreak then c
  else
    let n := (c.rest.takeWhile isBlank).length
    if n < commentReach then
      let c := c.ask (n + 1)
      if c.peekAt n = some '#' then (c.skipMany n).skipWhile (!isBreak ·) else c
    else c

/-- Go to the next token. -/
def toNext : Nat → Queue → Queue
  | 0, q => q
  | fuel + 1, q =>
    let tabs := q.inFlow || !q.keyAllowed
    let c := q.cursor.skipMark.skipWhile fun x => x = ' ' || (tabs && x = '\t')
    let c := skipComments (c.rest.length + 1) c
    if c.within isBreak then
      toNext fuel { q with cursor := c.skipBreak, keyAllowed := q.keyAllowed || !q.inFlow }
    else { q with cursor := c }

/-! ### Reading one token -/

/-- The end of the text. -/
def readEnd (q : Queue) : Except Fault Queue := do
  let m := q.mark
  let m := if m.column = 0 then m else { m with column := 0, line := m.line + 1 }
  let q := { q with cursor := { q.cursor with mark := m } }
  let q ← (q.unroll (-1) m).dropKey
  return { q.add ⟨.streamEnd, m, m⟩ with keyAllowed := false }

/-- A directive. -/
def readDirective (q : Queue) : Except Fault Queue := do
  let q ← (q.unroll (-1) q.mark).dropKey
  let (kind, stop, cursor) ← Directive.read q.cursor
  return { q.add ⟨kind, q.mark, stop⟩ with cursor, keyAllowed := false }

/-- The start or the end of a document. -/
def readMarker (q : Queue) (kind : TokenKind) : Except Fault Queue := do
  let q ← (q.unroll (-1) q.mark).dropKey
  return { q.addIndicator kind 3 with keyAllowed := false }

/-- The start of a flow collection. -/
def readFlowStart (q : Queue) (kind : TokenKind) : Except Fault Queue := do
  let q ← q.saveKey
  let q := { q with keys := q.keys.enter q.nextNumber q.mark }
  if maxDepth < q.keys.depth then q.fail q.mark .tooDeep
  else return { q.addIndicator kind 1 with keyAllowed := true }

/-- The end of a flow collection. -/
def readFlowEnd (q : Queue) (kind : TokenKind) : Except Fault Queue := do
  let q ← q.dropKey
  let q := { q with keys := q.keys.leave }
  return { q.addIndicator kind 1 with keyAllowed := false }

/-- A comma in a flow collection. -/
def readFlowEntry (q : Queue) : Except Fault Queue := do
  let q ← q.dropKey
  return { q.addIndicator .flowEntry 1 with keyAllowed := true }

/-- The dash before an entry of a block sequence. -/
def readBlockEntry (q : Queue) : Except Fault Queue := do
  let q ←
    if q.inFlow then pure q
    else if q.keyAllowed then
      q.openBlock q.mark.column q.nextNumber .blockSequenceStart q.mark
    else q.fail q.mark .entryNotAllowed
  let q ← q.dropKey
  return { q.addIndicator .blockEntry 1 with keyAllowed := true }

/-- The question mark before a key. -/
def readKey (q : Queue) : Except Fault Queue := do
  let q ←
    if q.inFlow then pure q
    else if q.keyAllowed then
      q.openBlock q.mark.column q.nextNumber .blockMappingStart q.mark
    else q.fail q.mark .keyNotAllowed
  let q ← q.dropKey
  return { q.addIndicator .key 1 with keyAllowed := !q.inFlow }

/-- The colon before a value. If the node before it may be a key, it is one. -/
def readValue (q : Queue) : Except Fault Queue := do
  let (isKey, keys) ← q.keys.check q.keys.depth q.mark
  let q := { q with keys }
  if isKey then
    let k := keys.inner
    let q := q.insert k.number .key k.mark
    let q ← q.openBlock k.mark.column k.number .blockMappingStart k.mark
    return { q.addIndicator .value 1 with keys := keys.forget, keyAllowed := false }
  else
    let q ←
      if q.inFlow then pure q
      else if q.keyAllowed then
        q.openBlock q.mark.column q.nextNumber .blockMappingStart q.mark
      else q.fail q.mark .valueNotAllowed
    return { q.addIndicator .value 1 with keyAllowed := !q.inFlow }

/-- A token that may be the start of a key, read by the given function. -/
def readNode (q : Queue) (read : Cursor → Except Fault (TokenKind × Cursor)) :
    Except Fault Queue := do
  let q ← q.saveKey
  let (kind, cursor) ← read q.cursor
  return { q.add ⟨kind, q.mark, cursor.mark⟩ with cursor, keyAllowed := false }

/-- A plain scalar. A key may follow it if it goes on to a new line. -/
def readPlain (q : Queue) : Except Fault Queue := do
  let q ← q.saveKey
  let (r, cursor) ← Plain.read q.inFlow q.indent q.cursor
  return { q.add ⟨.scalar true (String.ofList r.text.reverse), q.mark, r.stop⟩ with
    cursor, keyAllowed := r.gap.broken }

/-- A block scalar. -/
def readBlock (q : Queue) (literal : Bool) : Except Fault Queue := do
  let q ← q.dropKey
  let (text, cursor) ← Block.read literal q.indent q.cursor
  return { q.add ⟨.scalar false text, q.mark, cursor.mark⟩ with cursor, keyAllowed := true }

/-- Characters that no plain scalar starts with. -/
def indicators : List Char := "-?:,[]\x7b\x7d#&*!|>'\x22%@`".toList

/-- Whether a plain scalar starts at a character, given the one after it. -/
def startsPlain (inFlow : Bool) (c : Char) (next : Option Char) : Bool :=
  !(endsWord (some c) || indicators.contains c) ||
    (c = '-' && !next.any isBlank) ||
    (!inFlow && (c = '?' || c = ':') && !endsWord next)

/-- Read the token that starts at a character. -/
def readAt (q : Queue) (c : Char) : Except Fault Queue :=
  let next := q.cursor.peekAt 1
  let quoted (single : Bool) (c : Cursor) : Except Fault (TokenKind × Cursor) :=
    (Quoted.read single c).map fun (text, c) => (.scalar false text, c)
  if c = '[' then q.readFlowStart .flowSequenceStart
  else if c = '\x7b' then q.readFlowStart .flowMappingStart
  else if c = ']' then q.readFlowEnd .flowSequenceEnd
  else if c = '\x7d' then q.readFlowEnd .flowMappingEnd
  else if c = ',' then q.readFlowEntry
  else if c = '-' && endsWord next then q.readBlockEntry
  else if c = '?' && (q.inFlow || endsWord next) then q.readKey
  else if c = ':' && (q.inFlow || endsWord next) then q.readValue
  else if c = '*' then q.readNode fun c => (anchorName c).map fun (n, c) => (.alias n, c)
  else if c = '&' then q.readNode fun c => (anchorName c).map fun (n, c) => (.anchor n, c)
  else if c = '!' then q.readNode fun c => (Tag.read c).map fun (h, s, c) => (.tag h s, c)
  else if c = '|' && !q.inFlow then q.readBlock true
  else if c = '>' && !q.inFlow then q.readBlock false
  else if c = '\x27' then q.readNode (quoted true)
  else if c = '\x22' then q.readNode (quoted false)
  else if startsPlain q.inFlow c next then q.readPlain
  else q.fail q.mark .strayCharacter

/-- Read the next token, and the block ends before it. -/
def readNext (q : Queue) : Except Fault Queue :=
  if !q.started then
    .ok { q.add ⟨.streamStart, q.mark, q.mark⟩ with started := true }
  else
    let before := q.mark
    let q := toNext (q.cursor.rest.length + 1) q
    let q := q.unroll q.mark.column before
    let q := { q with cursor := q.cursor.ask 4 }
    match q.cursor.peek with
    | none => q.readEnd
    | some c =>
      if q.mark.column = 0 && c = '%' then q.readDirective
      else if q.cursor.atMarker '-' then q.readMarker .documentStart
      else if q.cursor.atMarker '.' then q.readMarker .documentEnd
      else do
        let q ← q.readAt c
        -- A comment after a dash belongs to what follows it.
        if (q.tokens.getLast?.map Token.kind) = some .blockEntry then return q
        return { q with cursor := skipLineComment q.cursor }

/-! ### Taking tokens -/

/-- Read tokens until there are three and the first one is settled. -/
def fill : Nat → Queue → Except Fault Queue
  | 0, q => .ok q
  | fuel + 1, q =>
    if q.tokens.length ≤ 2 then do fill fuel (← q.readNext)
    else
      match q.keys.watch? q.taken with
      | none => .ok q
      | some depth => do
        let (isOpen, keys) ← q.keys.check depth q.mark
        let q := { q with keys }
        if isOpen then fill fuel (← q.readNext) else return q

/-- Fill the queue as far as its first token needs it. -/
def filled (q : Queue) : Except Fault Queue := fill (q.cursor.rest.length + 8) q

/-- The first token; the end of the stream if there is none. -/
def front (q : Queue) : Token := q.tokens.head?.getD ⟨.streamEnd, q.mark, q.mark⟩

/-- Take the first token. -/
def next (q : Queue) : Queue := { q with tokens := q.tokens.drop 1, taken := q.taken + 1 }

end Queue

end Lisplet.Yaml
