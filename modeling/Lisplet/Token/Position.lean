/-!
# Positions in a source

A fault in a source is reported with its offset, its line and its column. Offsets count characters
from 0; lines and columns count from 1, and a newline starts a new line.
-/

namespace Lisplet

/-- A line and a column, both counted from 1. -/
structure Position where
  line : Nat := 1
  column : Nat := 1
  deriving DecidableEq, Repr, Inhabited

namespace Position

/-- The position after one more character. -/
def advance (p : Position) (c : Char) : Position :=
  if c = '\n' then ⟨p.line + 1, 1⟩ else ⟨p.line, p.column + 1⟩

/-- The position after a list of characters. -/
def after (before : List Char) : Position := before.foldl advance {}

@[simp] theorem after_nil : after [] = ⟨1, 1⟩ := rfl

theorem after_concat (before : List Char) (c : Char) :
    after (before ++ [c]) = (after before).advance c := by
  simp [after]

end Position

/-- A character that starts no token, and where it stands. -/
structure SyntaxError where
  offset : Nat
  position : Position
  char : Char
  deriving DecidableEq, Repr, Inhabited

namespace SyntaxError

/-- The fault at offset `offset` of a source. -/
def locate (source : List Char) (offset : Nat) (char : Char) : SyntaxError :=
  ⟨offset, .after (source.take offset), char⟩

/-- The report of a fault. -/
def message (e : SyntaxError) : String := "syntax error at character " ++ toString e.offset

/-- The line and the column of a fault. -/
def place (e : SyntaxError) : String :=
  "line " ++ toString e.position.line ++ ", column " ++ toString e.position.column

end SyntaxError

end Lisplet
