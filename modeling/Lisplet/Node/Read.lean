import Lisplet.Node
import Lisplet.Token.Scan

/-!
# Reading trees

Tokens become a tree by one pass with a stack of open branches. A closing parenthesis with no open
branch is skipped, and branches still open at the end are closed there, so every list of tokens
reads as a program.

* `Reading`, `Reading.step`: the open branches and what one token does to them;
* `Node.ofTokens`: the program of a list of tokens;
* `Node.ofSource`: the program of a source.
-/

namespace Lisplet

/-- The branches that are open while a program is read, innermost first. Nodes are kept newest
first. -/
structure Reading where
  /-- The nodes of the innermost open branch. -/
  inner : List Node := []
  /-- The nodes of the branches around it; the last entry is the top level. -/
  outer : List (List Node) := []

namespace Reading

/-- Add a node to the innermost open branch. -/
def add (r : Reading) (n : Node) : Reading := { r with inner := n :: r.inner }

/-- Take one token. -/
def step (r : Reading) (t : Token) : Reading :=
  match t.kind with
  | .openParen => ⟨[], r.inner :: r.outer⟩
  | .closeParen =>
    match r.outer with
    | [] => r
    | parent :: outer => ⟨.branch r.inner.reverse :: parent, outer⟩
  | _ => r.add (.atom t)

/-- Close every branch that is open, and return the top level. -/
def close : List Node → List (List Node) → List Node
  | inner, [] => inner.reverse
  | inner, parent :: outer => close (.branch inner.reverse :: parent) outer

/-- The top level of the program read so far. -/
def forest (r : Reading) : List Node := close r.inner r.outer

/-- The number of open branches, the top level not counted. -/
def height (r : Reading) : Nat := r.outer.length

/-- Take a list of tokens. -/
def run (r : Reading) (ts : List Token) : Reading := ts.foldl step r

end Reading

namespace Node

/-- The top-level nodes of a list of tokens. -/
def forestOf (ts : List Token) : List Node := (Reading.run {} ts).forest

/-- The program of the first `cap` tokens of a list. -/
def ofTokens (cap : Nat) (ts : List Token) : Node := program (forestOf (ts.take cap))

/-- Whether a cap leaves tokens unread. -/
def isCut (cap : Nat) (ts : List Token) : Bool := cap < ts.length

/-- The program of a source, one limit holding for both scanning and reading. -/
def ofSource (limit : Int) (source : String) : Except SyntaxError Node :=
  (tokenize limit source).map (ofTokens (effectiveCap limit))

end Node

end Lisplet
