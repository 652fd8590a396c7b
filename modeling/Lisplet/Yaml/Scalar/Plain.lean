import Lisplet.Yaml.Scalar.Gap

/-!
# Plain scalars

A scalar without quotes: words with white space between them, up to a colon that ends a key, a
comment, a bracket or comma of a flow collection, or a line with too little indentation.
-/

namespace Lisplet.Yaml.Plain

/-- Whether a plain scalar ends at a character, given the one after it. -/
def stopsAt (inFlow : Bool) (c : Char) (next : Option Char) : Bool :=
  (c = ':' && endsWord next) ||
    (inFlow && (c = ',' || c = '?' || c = '[' || c = ']' || c = '\x7b' || c = '\x7d'))

/-- Read the next word of a plain scalar. -/
def word (inFlow : Bool) : Nat → Cursor → List Char × Cursor
  | 0, c => ([], c)
  | fuel + 1, c =>
    match c.peek with
    | none => ([], c)
    | some x =>
      if endsWord (some x) || stopsAt inFlow x (c.peekAt 1) then ([], c)
      else
        let (w, c) := word inFlow fuel (c.skip.ask 2)
        (x :: w, c)

/-- A plain scalar that was read. -/
structure Reading where
  /-- Its characters, the newest first. -/
  text : List Char := []
  /-- The white space after the last word. -/
  gap : Gap := {}
  /-- The place after the last word. -/
  stop : Mark

/-- Read the words of a plain scalar that needs a given indentation. -/
def words (inFlow : Bool) (indent : Int) (start : Mark) :
    Nat → Reading → Cursor → Except Fault (Reading × Cursor)
  | 0, r, c => .ok (r, c)
  | fuel + 1, r, c =>
    let c := c.ask 4
    if c.atDocumentMarker || c.at? '#' then .ok (r, c)
    else
      let (w, c) := word inFlow c.rest.length c
      let r : Reading :=
        if w.isEmpty then r
        else { text := w.reverse ++ (r.gap.text.reverse ++ r.text), stop := c.mark }
      if c.within fun x => isBlank x || isBreak x then do
        let checkTab (c : Cursor) : Except Fault Unit :=
          if (c.mark.column : Int) < indent then .error (.inToken start c.mark .tabInPlain)
          else .ok ()
        let (gap, c) ← r.gap.read checkTab c.rest.length c
        let r := { r with gap }
        if !inFlow && (c.mark.column : Int) < indent then .ok (r, c)
        else words inFlow indent start fuel r c
      else .ok (r, c)

/-- Read a plain scalar inside the given indentation. -/
def read (inFlow : Bool) (indent : Int) (c : Cursor) : Except Fault (Reading × Cursor) :=
  words inFlow (indent + 1) c.mark (c.rest.length + 1) { stop := c.mark } c

end Lisplet.Yaml.Plain
