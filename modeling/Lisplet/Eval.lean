import Lisplet.Builtin.Apply
import Lisplet.Machine

/-!
# Evaluation

A symbol means what the environment binds it to, a number and a string mean themselves. A branch
is a special form, or a call: its nodes are evaluated from left to right and the first value is
called with the others. Scoping is dynamic: a function sees the frames of its caller.

Loops and calls need not end, so evaluation is given a number of steps. `evalWith` says what a
node does in terms of what the nodes it leads to do, and `eval` ties the knot, one step spent each
time. Within one loop the same number bounds the rounds.
-/

namespace Lisplet

namespace Eval

/-- Evaluate a list of nodes from left to right. -/
def all (rec : Node → Action Value) : List Node → Action (List Value)
  | [] => pure []
  | n :: ns => do
    let v ← rec n
    let vs ← all rec ns
    return v :: vs

/-- Evaluate a list of nodes from left to right for the value of the last one, `last` being the
value so far. -/
def sequence (rec : Node → Action Value) (last : Value) : List Node → Action Value
  | [] => pure last
  | n :: ns => do
    let v ← rec n
    sequence rec v ns

/-- The value of a name. -/
def symbol (name : String) : Action Value := fun m =>
  match m.env.lookup name with
  | some v => .done (.ok v) m
  | none => .done (.error (.undefinedSymbol name)) m

/-- The value of an atom. -/
def atom (t : Token) : Action Value :=
  match t.kind with
  | .symbol => symbol t.text
  | .number => pure (.number (literalValue t.text))
  | .string => pure (.string t.text)
  | .quote => Action.fail .quoted
  | kind => Action.fail (.strayToken kind)

/-- The name that a form binds at a node. -/
def bindingName (form : Form) (n : Node) : Except Fault String :=
  match n.symbol? with
  | none => .error (.malformed (.notSymbol form))
  | some name => if isReserved name then .error (.reservedName name) else .ok name

/-- The names that a form binds at a list of nodes. -/
def bindingNames (form : Form) : List Node → Except Fault (List String)
  | [] => .ok []
  | n :: ns => do
    let name ← bindingName form n
    let names ← bindingNames form ns
    return name :: names

/-- Take a result that was found without the machine. -/
def ofExcept {α : Type} : Except Fault α → Action α
  | .ok a => pure a
  | .error e => Action.fail e

/-- Bind parameters to arguments by position, a missing argument being undefined. -/
def bindParams (args : List Value) (position : Nat) : List String → Machine → Machine
  | [], m => m
  | name :: names, m =>
    bindParams args (position + 1) names (m.define name (Value.argument args position))

/-- Call a value. -/
def call (rec : Node → Action Value) (callee : Value) (args : List Value) : Action Value :=
  match callee with
  | .builtin b => do
    Action.update (·.note (.calledBuiltin b.name args.length))
    if b = .print then Action.update (·.print (Value.line args))
    return b.apply args
  | .function f => do
    Action.update (·.note (.calledFunction f.params.length args.length))
    Action.inFrame do
      Action.update (bindParams args 0 f.params)
      rec f.body
  | v => Action.fail (.notCallable v)

/-! ### Special forms -/

/-- Change a variable by one, in the innermost frame. -/
def bump (form : Form) (op : Value → Value → Value) (n : Node) : Action Value := do
  let name ← ofExcept (bindingName form n)
  let v ← symbol name
  Action.update (·.define name (op v (.number (Binary.ofNat 1))))
  return .undefined

/-- Bind names to values in turn: a symbol and an expression, and so on. -/
def bindPairs (rec : Node → Action Value) : List Node → Action Unit
  | n :: initial :: rest => do
    let name ← ofExcept (bindingName .loop n)
    let v ← rec initial
    Action.update (·.define name v)
    bindPairs rec rest
  | _ => pure ()

/-- Do the rounds of a loop: as long as the condition is true, the body and then the step. The
value is that of the last body. -/
def rounds (rec : Node → Action Value) (cond step body : Node) : Nat → Value → Action Value
  | 0, _ => Action.exhaust
  | budget + 1, last => do
    let c ← rec cond
    if c.isTrue then
      let v ← rec body
      let _ ← rec step
      rounds rec cond step body budget v
    else
      return last

/-- Evaluate a loop from its header and its body. -/
def loop (rec : Node → Action Value) (budget : Nat) (header body : Node) : Action Value :=
  match header with
  | .branch [bindings, cond, step] =>
    match bindings with
    | .branch pairs =>
      if pairs.length % 2 = 0 then
        Action.inFrame do
          bindPairs rec pairs
          rounds rec cond step body budget .undefined
      else Action.fail (.malformed .bindingsNotPaired)
    | _ => Action.fail (.malformed .bindingsNotList)
  | _ => Action.fail (.malformed .loopHeader)

/-- Evaluate a special form from the nodes after its head. -/
def form (rec : Node → Action Value) (budget : Nat) (f : Form) (parts : List Node) :
    Action Value :=
  match f, parts with
  | .progn, ns => Action.inFrame (sequence rec .undefined ns)
  | .function, [params, body] =>
    match params with
    | .branch ns => do
      let names ← ofExcept (bindingNames .function ns)
      fun m =>
        let (v, m) := m.makeFunction names body
        .done (.ok v) m
    | _ => Action.fail (.malformed .paramsNotList)
  | .conditional, [cond, yes] => do
    let c ← rec cond
    if c.isTrue then Action.inFrame (rec yes) else return .undefined
  | .conditional, [cond, yes, no] => do
    let c ← rec cond
    if c.isTrue then Action.inFrame (rec yes) else Action.inFrame (rec no)
  | .increment, [n] => bump .increment Value.add n
  | .decrement, [n] => bump .decrement Value.subtract n
  | .assignment, [n, e] => do
    let name ← ofExcept (bindingName .assignment n)
    let v ← rec e
    fun m =>
      match m.env.assign name v with
      | some env => .done (.ok v) { m with env }
      | none => .done (.error (.undefinedSymbol name)) m
  | .definition, [n] => do
    let name ← ofExcept (bindingName .definition n)
    Action.update (·.define name .undefined)
    return .undefined
  | .definition, [n, e] => do
    let name ← ofExcept (bindingName .definition n)
    let v ← rec e
    Action.update (·.define name v)
    return v
  | .loop, [header, body] => loop rec budget header body
  | f, _ => Action.fail (.malformed (.arity f))

/-- Evaluate the nodes of a branch as a call. -/
def application (rec : Node → Action Value) (head : Node) (parts : List Node) :
    Action Value := do
  let callee ← rec head
  let args ← all rec parts
  call rec callee args

/-- Evaluate a branch. -/
def branch (rec : Node → Action Value) (budget : Nat) (nodes : List Node) : Action Value :=
  match nodes with
  | [] => Action.fail (.malformed .empty)
  | head :: parts =>
    match head.symbol?.bind Form.ofName? with
    | some f => form rec budget f parts
    | none => application rec head parts

end Eval

/-- Evaluate a node, `rec` evaluating the nodes it leads to. -/
def evalWith (rec : Node → Action Value) (budget : Nat) : Node → Action Value
  | .hole h => Action.fail (.missingNode h)
  | .atom t => Eval.atom t
  | .branch nodes => Eval.branch rec budget nodes

/-- Evaluate a node in a given number of steps. -/
def eval : Nat → Node → Action Value
  | 0, _ => Action.exhaust
  | fuel + 1, n => evalWith (eval fuel) fuel n

@[simp] theorem eval_zero (n : Node) : eval 0 n = Action.exhaust := rfl

theorem eval_succ (fuel : Nat) (n : Node) : eval (fuel + 1) n = evalWith (eval fuel) fuel n := rfl

end Lisplet
