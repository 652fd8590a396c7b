import Lisplet.Number.Numeral
import Lisplet.Text.Utf8
import Lisplet.Yaml.Fault
import Lisplet.Yaml.Token

/-!
# Anchors, tags and directives

What may stand before a node or a document: `&name` names a node and `*name` refers to it, a tag
states the type of a node, and a line that starts with a percent sign states the version of the
language or a short form for the beginning of tags.
-/

namespace Lisplet.Yaml

/-! ### Anchors and aliases -/

/-- Read the name of an anchor or an alias; the cursor stands at its mark. -/
def anchorName (c : Cursor) : Except Fault (String × Cursor) :=
  let (name, d) := c.skip.takeWhile isNameChar
  let ends := endsWord d.peek || d.within ("?:,]\x7d%@`".toList.contains ·)
  if name.isEmpty || !ends then .error (.inToken c.mark d.mark .anchorName)
  else .ok (String.ofList name, d)

/-! ### Tags -/

namespace Tag

/-- A character that may stand in a tag as it is. -/
def isPlainChar (c : Char) : Bool := isNameChar c || ";/?:@&=+$,.!~*'()[]".toList.contains c

/-- Read one octet that is written as a percent sign and two digits. -/
def octet (start : Mark) (c : Cursor) : Except Fault (UInt8 × Cursor) :=
  let c := c.ask 3
  match c.rest with
  | '%' :: a :: b :: _ =>
    if Numeral.isHexDigit a && Numeral.isHexDigit b then
      .ok (UInt8.ofNat (Numeral.ofHexDigits [a, b]), c.skipMany 3)
    else .error (.inToken start c.mark .escapedOctet)
  | _ => .error (.inToken start c.mark .escapedOctet)

/-- How many octets a character has, by its first one; 0 if none starts with it. -/
def octets (b : UInt8) : Nat :=
  if b < 0x80 then 1
  else if 0xc0 ≤ b && b < 0xe0 then 2
  else if 0xe0 ≤ b && b < 0xf0 then 3
  else if 0xf0 ≤ b && b < 0xf8 then 4
  else 0

/-- Read so many octets that continue a character. -/
def trailing (start : Mark) : Nat → Cursor → Except Fault (List UInt8 × Cursor)
  | 0, c => .ok ([], c)
  | n + 1, c => do
    let (b, d) ← octet start c
    if !Text.isTail b then throw (.inToken start c.mark .trailingOctet)
    let (bs, d) ← trailing start n d
    return (b :: bs, d)

/-- Read a character that is written octet by octet. -/
def escaped (start : Mark) (c : Cursor) : Except Fault (List Char × Cursor) := do
  let (b, d) ← octet start c
  if octets b = 0 then throw (.inToken start c.mark .leadingOctet)
  let (bs, d) ← trailing start (octets b - 1) d
  return (Text.decode (b :: bs), d)

/-- Read the text of a tag. -/
def text (start : Mark) : Nat → List Char → Cursor → Except Fault (List Char × Cursor)
  | 0, sofar, c => .ok (sofar, c)
  | fuel + 1, sofar, c =>
    match c.peek with
    | none => .ok (sofar, c)
    | some x =>
      if x = '%' then do
        let (cs, c) ← escaped start c
        text start fuel (sofar ++ cs) c
      else if isPlainChar x then text start fuel (sofar ++ [x]) c.skip
      else .ok (sofar, c)

/-- Read the text of a tag that may not be empty. -/
def someText (start : Mark) (c : Cursor) : Except Fault (String × Cursor) := do
  let (cs, d) ← text start c.rest.length [] c
  if d.mark = c.mark then throw (.inToken start d.mark .tagText)
  return (String.ofList cs, d)

/-- Read a handle: a mark, a name, and a second mark if there is one. -/
def handle (start : Mark) (c : Cursor) : Except Fault (List Char × Cursor) :=
  if c.at? '!' then
    let (name, d) := c.skip.takeWhile isNameChar
    if d.at? '!' then .ok ('!' :: name ++ ['!'], d.skip) else .ok ('!' :: name, d)
  else .error (.inToken start c.mark .tagMark)

/-- Read a tag as a handle and a suffix. A tag in angle brackets has no handle. -/
def read (c : Cursor) : Except Fault (String × String × Cursor) := do
  let start := c.mark
  let c := c.ask 2
  let (h, suffix, d) ←
    if c.peekAt 1 = some '<' then do
      let (suffix, d) ← someText start (c.skipMany 2)
      if !d.at? '>' then throw (Fault.inToken start d.mark .tagClosing)
      pure ("", suffix, d.skip)
    else do
      let (h, d) ← handle start c
      if 1 < h.length && h.getLast? = some '!' then
        let (suffix, d) ← someText start d
        pure (String.ofList h, suffix, d)
      else
        let (more, d) ← text start d.rest.length [] d
        let suffix := String.ofList (h.drop 1 ++ more)
        pure (if suffix.isEmpty then ("", "!", d) else ("!", suffix, d))
  if !endsWord d.peek then throw (.inToken start d.mark .whiteSpaceOrBreak)
  return (h, suffix, d)

end Tag

/-! ### Directives -/

namespace Directive

/-- Read a part of a version number. -/
def versionPart (start : Mark) (c : Cursor) : Except Fault (Nat × Cursor) :=
  let (digits, d) := c.takeWhile Char.isDigit
  if 2 < digits.length then .error (.inToken start d.mark .versionLong)
  else if digits.isEmpty then .error (.inToken start d.mark .versionMissing)
  else .ok (Decimal.ofDigits digits, d)

/-- Read a version. -/
def version (start : Mark) (c : Cursor) : Except Fault (TokenKind × Cursor) := do
  let (major, c) ← versionPart start (c.skipWhile isBlank)
  if !c.at? '.' then throw (.inToken start c.mark .versionPoint)
  let (minor, c) ← versionPart start c.skip
  return (.version major minor, c)

/-- Read a short form and the beginning of tags that it stands for. -/
def tagPrefix (start : Mark) (c : Cursor) : Except Fault (TokenKind × Cursor) := do
  let (h, c) ← Tag.handle start (c.skipWhile isBlank)
  if h ≠ ['!'] && h.getLast? ≠ some '!' then throw (.inToken start c.mark .tagMark)
  if !c.within isBlank then throw (.inToken start c.mark .whiteSpace)
  let (text, c) ← Tag.someText start (c.skipWhile isBlank)
  if !endsWord c.peek then throw (.inToken start c.mark .whiteSpaceOrBreak)
  return (.tagPrefix (String.ofList h) text, c)

/-- Read a directive; the cursor stands at its percent sign. Returns the place after it, too, which
is before the rest of the line. -/
def read (c : Cursor) : Except Fault (TokenKind × Mark × Cursor) := do
  let start := c.mark
  let (name, c) := c.skip.takeWhile isNameChar
  if name.isEmpty then throw (.inToken start c.mark .directiveUnnamed)
  if !endsWord c.peek then throw (.inToken start c.mark .directiveName)
  let (kind, c) ←
    match String.ofList name with
    | "YAML" => version start c
    | "TAG" => tagPrefix start c
    | _ => throw (.inToken start c.mark .directiveUnknown)
  let stop := c.mark
  let c := c.skipWhile isBlank
  let c := if c.at? '#' then c.skipWhile (!isBreak ·) else c
  if !endsLine c.peek then throw (.inToken start c.mark .lineEnd)
  return (kind, stop, c.skipBreak)

end Directive

end Lisplet.Yaml
