/-!
# Special forms

A branch headed by one of eight names is a special form. The names are reserved: nothing can be
bound to them.
-/

namespace Lisplet

/-- A special form. -/
inductive Form where
  | progn
  | function
  | conditional
  | increment
  | decrement
  | assignment
  | definition
  | loop
  deriving DecidableEq, Repr, Inhabited

namespace Form

/-- The name that heads a form. -/
def name : Form → String
  | .progn => "progn"
  | .function => "fn"
  | .conditional => "if"
  | .increment => "++"
  | .decrement => "--"
  | .assignment => "="
  | .definition => "let"
  | .loop => "for"

/-- Every form. -/
def all : List Form :=
  [.progn, .function, .conditional, .increment, .decrement, .assignment, .definition, .loop]

/-- The form that a name heads. -/
def ofName? (name : String) : Option Form := all.find? fun f => f.name == name

/-- The shape that a form has to have. -/
def shape : Form → String
  | .progn => "(progn exprs...)"
  | .function => "(fn (params...) body)"
  | .conditional => "(if cond then [else])"
  | .increment => "(++ symbol)"
  | .decrement => "(-- symbol)"
  | .assignment => "(= symbol expr)"
  | .definition => "(let symbol [expr])"
  | .loop => "(for (bindings cond step) body)"

end Form

/-- Whether a name is reserved. -/
def isReserved (name : String) : Bool := (Form.ofName? name).isSome

@[simp] theorem isReserved_name (f : Form) : isReserved f.name = true := by
  cases f <;> decide

end Lisplet
