import Lisplet.Yaml.Fault

/-!
# Nodes that may turn out to be keys

Only a colon after a node tells that the node was a key. At any time one node may be waiting for its
colon in each of the flow collections around the cursor, and one in the blocks around them.

The first token of a waiting node is watched: as long as the node at its depth may be a key, tokens
are read ahead. A token is watched by its number and the depth alone. So a node that was given up
because its line has ended leaves its token watched, on behalf of the node that waits at the same
depth next; and a flow collection that nothing waited in takes the watch off its own bracket.
-/

namespace Lisplet.Yaml

/-- A node that may turn out to be a key. -/
structure PendingKey where
  /-- Whether it may still be a key. -/
  possible : Bool := false
  /-- Whether it has to be a key, since it starts a line of a block mapping. -/
  required : Bool := false
  /-- The number of its first token. -/
  number : Nat := 0
  mark : Mark := {}
  deriving DecidableEq, Repr, Inhabited

namespace PendingKey

/-- The farthest that a colon may be from the start of its key. -/
def maxLength : Nat := 1024

/-- Whether a colon here is on the line of a node and near enough to it. -/
def isCurrent (k : PendingKey) (here : Mark) : Bool :=
  k.mark.line == here.line && here.index ≤ k.mark.index + maxLength

end PendingKey

/-- The nodes that may turn out to be keys, one for each depth. -/
structure PendingKeys where
  /-- The node in the innermost collection. -/
  inner : PendingKey := {}
  /-- The nodes in the collections around it, the nearest first. -/
  outer : List PendingKey := []
  /-- The numbers of the watched tokens, each with a depth. -/
  watched : List (Nat × Nat) := []
  deriving DecidableEq, Repr, Inhabited

namespace PendingKeys

/-- The depth of the innermost flow collection, 0 outside of any. -/
def depth (p : PendingKeys) : Nat := p.outer.length

/-- Whether there is a flow collection. -/
def inFlow (p : PendingKeys) : Bool := !p.outer.isEmpty

/-- The node at a depth. -/
def at? (p : PendingKeys) (depth : Nat) : Option PendingKey :=
  if depth = p.depth then some p.inner
  else if depth < p.depth then p.outer[p.depth - 1 - depth]?
  else none

/-- Give up the node at a depth. -/
def giveUp (p : PendingKeys) (depth : Nat) : PendingKeys :=
  let close (k : PendingKey) : PendingKey := { k with possible := false }
  if depth = p.depth then { p with inner := close p.inner }
  else { p with outer := p.outer.modify (p.depth - 1 - depth) close }

/-- Watch a token no longer. -/
def unwatch (p : PendingKeys) (number : Nat) : PendingKeys :=
  { p with watched := p.watched.filter (·.1 != number) }

/-- Give up the innermost node, and watch its token no longer. -/
def forget (p : PendingKeys) : PendingKeys := (p.giveUp p.depth).unwatch p.inner.number

/-- Whether the node at a depth may still be a key. It is given up if a colon here would come too
late, which is a fault if it has to be a key. -/
def check (p : PendingKeys) (depth : Nat) (here : Mark) : Except Fault (Bool × PendingKeys) :=
  match p.at? depth with
  | none => .ok (false, p)
  | some k =>
    if !k.possible then .ok (false, p)
    else if k.isCurrent here then .ok (true, p)
    else if k.required then .error (.inToken k.mark here .missingColon)
    else .ok (false, p.giveUp depth)

/-- Forget the innermost node. It is a fault if it has to be a key. -/
def drop (p : PendingKeys) (here : Mark) : Except Fault PendingKeys :=
  if !p.inner.possible then .ok p
  else if p.inner.required then .error (.inToken p.inner.mark here .missingColon)
  else .ok p.forget

/-- Let a new node wait in the innermost collection. -/
def save (p : PendingKeys) (k : PendingKey) : Except Fault PendingKeys := do
  let p ← p.drop k.mark
  return { p with inner := k, watched := (k.number, p.depth) :: p.watched }

/-- Enter a flow collection whose bracket has a given number. -/
def enter (p : PendingKeys) (number : Nat) (mark : Mark) : PendingKeys :=
  { p with inner := { number, mark }, outer := p.inner :: p.outer }

/-- Leave the innermost flow collection. The token of its last node, or else its bracket, is watched
no longer. -/
def leave (p : PendingKeys) : PendingKeys :=
  match p.outer with
  | [] => p
  | k :: outer => { p.unwatch p.inner.number with inner := k, outer }

/-- The depth at which a token is watched. -/
def watch? (p : PendingKeys) (number : Nat) : Option Nat := p.watched.lookup number

/-! ### Lemmas -/

@[simp] theorem depth_enter (p : PendingKeys) (number : Nat) (mark : Mark) :
    (p.enter number mark).depth = p.depth + 1 := rfl

@[simp] theorem depth_unwatch (p : PendingKeys) (number : Nat) :
    (p.unwatch number).depth = p.depth := rfl

theorem leave_enter (p : PendingKeys) (number : Nat) (mark : Mark) :
    (p.enter number mark).leave = p.unwatch number := rfl

theorem inFlow_iff (p : PendingKeys) : p.inFlow = true ↔ 0 < p.depth := by
  simp [inFlow, depth, List.length_pos_iff]

theorem at?_depth (p : PendingKeys) : p.at? p.depth = some p.inner := by simp [at?]

end PendingKeys

end Lisplet.Yaml
