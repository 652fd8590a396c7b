import Lisplet.Environment
import Lisplet.Event
import Lisplet.Fault

/-!
# The machine and its actions

Evaluation works on a machine: the environment, the identity of the next function, the lines
printed so far and, if the run is traced, the events so far. An action takes a machine and either
ends, with a value or a fault and the machine it leaves, or runs out of the steps it was given.
-/

namespace Lisplet

/-- The state of a run. -/
structure Machine where
  env : Environment := .standard
  /-- The identity of the next function. -/
  nextId : Nat := 0
  /-- Printed lines, newest first. -/
  printed : List String := []
  /-- Whether events are recorded. -/
  traced : Bool := false
  /-- Recorded events, newest first. -/
  events : List Event := []
  deriving Inhabited

namespace Machine

/-- Record an event of a traced run. -/
def note (e : Event) (m : Machine) : Machine :=
  if m.traced then { m with events := e :: m.events } else m

/-- Print a line. -/
def print (line : String) (m : Machine) : Machine := { m with printed := line :: m.printed }

/-- Push a frame. -/
def push (m : Machine) : Machine :=
  let env := m.env.push
  ({ m with env } : Machine).note (.pushed env.depth)

/-- Cut the stack to a depth. -/
def release (depth : Nat) (m : Machine) : Machine :=
  let before := m.env.depth
  if depth < before then
    ({ m with env := m.env.cutTo depth } : Machine).note (.popped depth (before - depth))
  else m

/-- Bind a name in the innermost frame. -/
def define (name : String) (value : Value) (m : Machine) : Machine :=
  { m with env := m.env.define name value }

/-- Make a function. -/
def makeFunction (params : List String) (body : Node) (m : Machine) : Value × Machine :=
  (.function ⟨m.nextId, params, body⟩, { m with nextId := m.nextId + 1 })

/-- Everything printed so far, a newline after each line. -/
def output (m : Machine) : String := String.join (m.printed.reverse.map (· ++ "\n"))

/-- The lines of the events so far, a newline after each. -/
def log (m : Machine) : String := String.join (m.events.reverse.map (·.line ++ "\n"))

end Machine

/-- How an action ends. -/
inductive Outcome (α : Type) where
  /-- The steps it was given were too few. -/
  | exhausted
  /-- It ended with a value or a fault, and left a machine. -/
  | done (result : Except Fault α) (machine : Machine)
  deriving Inhabited

/-- Something to do on a machine. -/
def Action (α : Type) : Type := Machine → Outcome α

namespace Action

variable {α β : Type}

/-- End with a value. -/
@[inline] def pure (a : α) : Action α := fun m => .done (.ok a) m

/-- Do one action, and then the one that its value calls for. A fault ends both. -/
@[inline] def bind (x : Action α) (f : α → Action β) : Action β := fun m =>
  match x m with
  | .exhausted => .exhausted
  | .done (.error e) m => .done (.error e) m
  | .done (.ok a) m => f a m

instance : Monad Action where
  pure := pure
  bind := bind

/-- End with a fault. -/
@[inline] def fail (e : Fault) : Action α := fun m => .done (.error e) m

/-- Run out of steps. -/
@[inline] def exhaust : Action α := fun _ => .exhausted

/-- Change the machine. -/
@[inline] def update (f : Machine → Machine) : Action Unit := fun m => .done (.ok ()) (f m)

/-- Do an action in a frame of its own, which is released however the action ends. -/
@[inline] def inFrame (x : Action α) : Action α := fun m =>
  match x m.push with
  | .exhausted => .exhausted
  | .done r m' => .done r (m'.release m.env.depth)

@[simp] theorem pure_apply (a : α) (m : Machine) :
    (Pure.pure a : Action α) m = .done (.ok a) m := rfl

@[simp] theorem fail_apply (e : Fault) (m : Machine) :
    (fail e : Action α) m = .done (.error e) m := rfl

@[simp] theorem update_apply (f : Machine → Machine) (m : Machine) :
    update f m = .done (.ok ()) (f m) := rfl

end Action

end Lisplet
