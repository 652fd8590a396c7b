/-!
# Reading YAML characters

A cursor stands between two characters of a text and knows its place: the index of the next
character, its line and its column, all counted from 0. A line ends with a line feed, a carriage
return, both together, or one of three line separators of Unicode.

The text is seen through a window that starts at some character before the cursor and reaches to
the end. Where more characters are asked for than the window shows, it is moved up to the cursor and
one end mark is added behind the text. What the window starts with matters in one respect: a byte
order mark there stands for a mark at the start of every line.
-/

namespace Lisplet.Yaml

/-! ### Character classes -/

/-- A space or a tab. -/
def isBlank (c : Char) : Bool := c = ' ' || c = '\t'

/-- A character that ends a line. -/
def isBreak (c : Char) : Bool :=
  c = '\n' || c = '\r' || c.toNat = 0x85 || c.toNat = 0x2028 || c.toNat = 0x2029

/-- Whether a word ends before what may be the next character. -/
def endsWord : Option Char → Bool
  | none => true
  | some c => isBlank c || isBreak c

/-- Whether a line ends before what may be the next character. -/
def endsLine : Option Char → Bool
  | none => true
  | some c => isBreak c

/-- A character of a name. -/
def isNameChar (c : Char) : Bool := c.isAlphanum || c = '_' || c = '-'

/-- A character that may stand in a text at all. -/
def isAllowed (c : Char) : Bool :=
  let n := c.toNat
  n == 0x09 || n == 0x0a || n == 0x0d || (0x20 ≤ n && n ≤ 0x7e) || n == 0x85 ||
    (0xa0 ≤ n && n ≤ 0xfffd) || 0x10000 ≤ n

/-- The byte order mark. -/
def byteOrderMark : Char := '\ufeff'

/-! ### Cursors -/

/-- A place in a text. -/
structure Mark where
  index : Nat := 0
  line : Nat := 0
  column : Nat := 0
  deriving DecidableEq, Repr, Inhabited

/-- A place in a text, and the text from there on. -/
structure Cursor where
  rest : List Char
  mark : Mark := {}
  /-- Whether nothing but blanks was read since the last line break. -/
  afterBreak : Bool := false
  /-- Whether the window starts with a byte order mark. -/
  marked : Bool := false
  /-- How many end marks the window shows behind the text. -/
  ends : Nat := 0
  deriving Repr, Inhabited

namespace Cursor

/-- The start of a text, where the window starts, too. A byte order mark there is left aside. -/
def ofText (cs : List Char) : Cursor :=
  let rest := if cs.head? = some byteOrderMark then cs.drop 1 else cs
  { rest, marked := rest.head? == some byteOrderMark }

/-- The next character. -/
def peek (c : Cursor) : Option Char := c.rest.head?

/-- The character at a distance from the next one. -/
def peekAt (c : Cursor) (n : Nat) : Option Char := c.rest[n]?

/-- Whether the next character is a given one. -/
def at? (c : Cursor) (x : Char) : Bool := c.peek == some x

/-- Whether the next character is in a class. -/
def within (c : Cursor) (p : Char → Bool) : Bool := c.peek.any p

/-- Ask for `n` characters. If the window does not show as many, it is moved. -/
def ask (c : Cursor) (n : Nat) : Cursor :=
  if (c.rest.take n).length + c.ends < n then
    { c with marked := c.at? byteOrderMark, ends := c.ends + 1 }
  else c

/-- The place after one more character of the line. -/
def nextMark (c : Cursor) : Mark :=
  { c.mark with index := c.mark.index + 1, column := c.mark.column + 1 }

/-- Go past one character of a line. -/
def skip (c : Cursor) : Cursor :=
  match c.rest with
  | [] => c
  | x :: rest => { c with rest, mark := c.nextMark, afterBreak := c.afterBreak && isBlank x }

/-- Go past the first character of a line, or past an end mark, if the window starts with a byte
order mark. -/
def skipMark (c : Cursor) : Cursor :=
  let c := c.ask 1
  if c.mark.column = 0 && c.marked then
    match c.rest with
    | [] => (({ c with mark := c.nextMark, afterBreak := false, ends := c.ends - 1 }).ask 1)
    | _ :: _ => c.skip
  else c

/-- Go past several characters of a line. -/
def skipMany : Nat → Cursor → Cursor
  | 0, c => c
  | n + 1, c => skipMany n c.skip

/-- Go past the characters of a class. -/
def skipWhile (p : Char → Bool) (c : Cursor) : Cursor := c.skipMany (c.rest.takeWhile p).length

/-- Read the characters of a class. -/
def takeWhile (p : Char → Bool) (c : Cursor) : List Char × Cursor :=
  (c.rest.takeWhile p, c.skipWhile p)

/-- The start of the next line, `n` characters on. -/
def newLine (n : Nat) (c : Cursor) : Cursor :=
  { c with
    rest := c.rest.drop n, mark := ⟨c.mark.index + n, c.mark.line + 1, 0⟩, afterBreak := true }

/-- Read a line break. Every break counts as a line feed, but for the line and the paragraph
separator, which stand for themselves. -/
def readBreak (c : Cursor) : List Char × Cursor :=
  let c := c.ask 2
  match c.rest with
  | '\r' :: '\n' :: _ => (['\n'], c.newLine 2)
  | x :: _ =>
    if x.toNat = 0x2028 || x.toNat = 0x2029 then ([x], c.newLine 1)
    else if isBreak x then (['\n'], c.newLine 1)
    else ([], { c with afterBreak := true })
  | [] => ([], { c with afterBreak := true })

/-- Go past a line break, if there is one. -/
def skipBreak (c : Cursor) : Cursor := if c.within isBreak then c.readBreak.2 else c

/-- Whether a marker of three equal characters stands alone at the start of the line. -/
def atMarker (x : Char) (c : Cursor) : Bool :=
  c.mark.column == 0 && c.at? x && c.peekAt 1 == some x && c.peekAt 2 == some x &&
    endsWord (c.peekAt 3)

/-- Whether a document starts or ends here. -/
def atDocumentMarker (c : Cursor) : Bool := c.atMarker '-' || c.atMarker '.'

end Cursor

end Lisplet.Yaml
