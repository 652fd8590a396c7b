import Lisplet.Eval
import Lisplet.Limits
import Lisplet.Node.Read
import Lisplet.Number.Power

/-!
# Running sources

A source is read under limits and evaluated on a machine, either in a frame of its own, which is
gone afterwards, or in the innermost frame of the machine, where its definitions stay.
-/

namespace Lisplet.Interpreter

/-- The steps that a run is given: more than it can ever use up. -/
def steps : Nat := twoPow 60

/-- Read a source as a program. -/
def read (limits : Limits) (source : String) : Action Node := do
  let cs := source.toList
  let s := scan (effectiveCap limits.tokenizerReads) cs
  match s.tokens cs with
  | .error e => Action.fail (.unreadable e)
  | .ok ts =>
    if s.truncated then Action.update (·.note (.scanCut ts.length))
    let cap := effectiveCap limits.parserReads
    if Node.isCut cap ts then Action.update (·.note (.readCut ts.length))
    let root := Node.ofTokens cap ts
    Action.update (·.note (.parsed ts.length root.count))
    return root

/-- Evaluate a source in a frame of its own. -/
def evaluateSource (fuel : Nat) (limits : Limits) (source : String) : Action Value := do
  let root ← read limits source
  eval fuel root

/-- Evaluate a source so that its definitions stay. -/
def evaluatePersistent (fuel : Nat) (limits : Limits) (source : String) : Action Value := do
  let root ← read limits source
  Eval.sequence (eval fuel) .undefined (root.children.drop 1)

/-- Call a value. -/
def call (fuel : Nat) (callee : Value) (args : List Value) : Action Value :=
  Eval.call (eval fuel) callee args

/-- The value of a name. -/
def get (name : String) : Action Value := Eval.symbol name

/-- Change a name in the nearest frame that binds it. -/
def assign (name : String) (value : Value) : Action Unit := fun m =>
  match m.env.assign name value with
  | some env => .done (.ok ()) { m with env }
  | none => .done (.error (.undefinedSymbol name)) m

end Lisplet.Interpreter
