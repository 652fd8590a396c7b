import Lisplet.Token

/-!
# Trees

A program is a tree: an atom holds a token, a branch holds a list of trees. A tree that comes from
outside may have holes where a node is missing; a hole may still say which sort of node it stands
for.

* `Node.depth`, `Node.count`: the measures of a tree;
* `Node.head?`: the symbol at the head of a branch;
* `Node.flatten`: the tokens of a tree, parentheses around each branch;
* `Node.outline`: one line per atom, indented by nesting.
-/

namespace Lisplet

/-- A place where a node is missing. -/
inductive Hole where
  | bare
  | atom
  | branch
  deriving DecidableEq, Repr, Inhabited

/-- A tree of tokens. -/
inductive Node where
  | hole (kind : Hole)
  | atom (token : Token)
  | branch (children : List Node)
  deriving Repr, Inhabited

namespace Node

/-- The name of the form that sequences a program. -/
def prognName : String := "progn"

/-- The symbol of a given name. -/
def sym (name : String) : Node := .atom (.sym name)

/-- The whole program with given top-level nodes. -/
def program (forest : List Node) : Node := .branch (sym prognName :: forest)

/-- The nodes under a branch. -/
def children : Node → List Node
  | .branch cs => cs
  | _ => []

/-- The name that a node is the symbol of. -/
def symbol? : Node → Option String
  | .atom ⟨.symbol, name⟩ => some name
  | _ => none

/-- The symbol that heads a branch. -/
def head? : Node → Option String
  | .branch (head :: _) => head.symbol?
  | _ => none

mutual

/-- How deep branches are nested below a node. -/
def depth : Node → Nat
  | .hole _ => 0
  | .atom _ => 0
  | .branch cs => depthBelow cs

/-- How deep branches are nested in a list of nodes, each branch of the list counted. -/
def depthBelow : List Node → Nat
  | [] => 0
  | .branch cs :: rest => max (depth (.branch cs) + 1) (depthBelow rest)
  | _ :: rest => depthBelow rest

end

mutual

/-- The number of nodes of a tree. -/
def count : Node → Nat
  | .hole _ => 1
  | .atom _ => 1
  | .branch cs => countAll cs + 1

/-- The number of nodes in a list of trees. -/
def countAll : List Node → Nat
  | [] => 0
  | n :: rest => count n + countAll rest

end

mutual

/-- The tokens of a tree, with parentheses around each branch and nothing for a hole. -/
def flatten : Node → List Token
  | .hole _ => []
  | .atom t => [t]
  | .branch cs => Token.opening :: (flattenAll cs ++ [Token.closing])

/-- The tokens of a list of trees. -/
def flattenAll : List Node → List Token
  | [] => []
  | n :: rest => flatten n ++ flattenAll rest

end

mutual

/-- The lines of a node at a given depth: one per atom, indented by two spaces per level. -/
def lines (depth : Nat) : Node → List String
  | .hole _ => []
  | .atom t => [String.ofList (List.replicate (2 * depth) ' ') ++ t.text]
  | .branch cs => linesAll (depth + 1) cs

/-- The lines of a list of nodes at a given depth. -/
def linesAll (depth : Nat) : List Node → List String
  | [] => []
  | n :: rest => lines depth n ++ linesAll depth rest

end

/-- The outline of a branch: its atoms one per line, those of nested branches indented. -/
def outline (n : Node) : String := "\n".intercalate (linesAll 0 n.children)

end Node

end Lisplet
