import Lisplet.Yaml.Fault

/-!
# Folding

The white space between two words of a scalar stands for itself within a line. If it holds line
breaks, the first one is folded into a space, unless more of them follow, which then stand for
themselves.
-/

namespace Lisplet.Yaml

/-- The white space between two words. -/
structure Gap where
  /-- Blanks before the first break. -/
  blanks : List Char := []
  /-- Whether there is a break. -/
  broken : Bool := false
  firstBreak : List Char := []
  moreBreaks : List Char := []
  deriving DecidableEq, Repr, Inhabited

namespace Gap

/-- What a gap stands for. -/
def text (g : Gap) : List Char :=
  if g.broken then
    if g.firstBreak.head? = some '\n' then
      if g.moreBreaks.isEmpty then [' '] else g.moreBreaks
    else g.firstBreak ++ g.moreBreaks
  else g.blanks

/-- Whether a gap holds nothing. -/
def isEmpty (g : Gap) : Bool := !g.broken && g.blanks.isEmpty

/-- Read white space. After a break, `checkTab` may refuse a tab. -/
def read (checkTab : Cursor → Except Fault Unit) :
    Nat → Gap → Cursor → Except Fault (Gap × Cursor)
  | 0, g, c => .ok (g, c)
  | fuel + 1, g, c =>
    match c.peek with
    | none => .ok (g, c)
    | some x =>
      if isBlank x then do
        if g.broken && x = '\t' then checkTab c
        let g := if g.broken then g else { g with blanks := g.blanks ++ [x] }
        read checkTab fuel g c.skip
      else if isBreak x then
        let (line, c) := c.readBreak
        let g :=
          if g.broken then { g with moreBreaks := g.moreBreaks ++ line }
          else { blanks := [], broken := true, firstBreak := line }
        read checkTab fuel g c
      else .ok (g, c)

end Gap

end Lisplet.Yaml
