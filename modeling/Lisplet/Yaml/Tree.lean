import Lisplet.Yaml.Token

/-!
# YAML trees

A document is a tree of scalars, sequences and mappings. A node may carry a tag, and one with an
anchor can be referred to from elsewhere, even from inside itself; so an alias holds the place of
the node that it refers to, and the document lists its anchored nodes by their places.
-/

namespace Lisplet.Yaml

/-- A node of a document. Lines count from 1, and a node without a tag has the empty one. -/
inductive Tree where
  | scalar (line : Nat) (tag : String) (plain : Bool) (text : String)
  | sequence (line : Nat) (tag : String) (items : List Tree)
  | mapping (line : Nat) (tag : String) (entries : List (Tree × Tree))
  /-- A reference from one place to the node at another. -/
  | alias (line : Nat) (name : String) (place target : Nat)
  deriving Repr, Inhabited

/-- A tree and its anchored nodes. -/
structure Document where
  root : Tree
  /-- The anchored nodes, each with its place. -/
  anchored : List (Nat × Tree) := []
  deriving Inhabited

namespace Document

/-- The anchored node at a place. -/
def node? (d : Document) (place : Nat) : Option Tree :=
  (d.anchored.find? (·.1 == place)).map Prod.snd

end Document

namespace Tree

/-- The line of a node. -/
def line : Tree → Nat
  | .scalar l _ _ _ => l
  | .sequence l _ _ => l
  | .mapping l _ _ => l
  | .alias l _ _ _ => l

/-- The text by which equal keys are told: that of a scalar, and the name of an alias. -/
def keyText : Tree → String
  | .scalar _ _ _ text => text
  | .alias _ name _ _ => name
  | _ => ""

/-- Whether two nodes are of one sort. -/
def sameSort : Tree → Tree → Bool
  | .scalar .., .scalar .. => true
  | .sequence .., .sequence .. => true
  | .mapping .., .mapping .. => true
  | .alias .., .alias .. => true
  | _, _ => false

/-- Whether a node is a mapping. -/
def isMapping : Tree → Bool
  | .mapping .. => true
  | _ => false

end Tree

end Lisplet.Yaml
