import Lisplet.Form
import Lisplet.Token.Position
import Lisplet.Value.Text

/-!
# Faults

Why a program could not be read or evaluated. Each fault is a cause; `Fault.message` words it.
-/

namespace Lisplet

/-- What is wrong with the shape of a branch. -/
inductive Misuse where
  /-- A branch with nothing in it. -/
  | empty
  /-- A form with the wrong number of parts. -/
  | arity (form : Form)
  /-- Something else stands where a form needs a symbol. -/
  | notSymbol (form : Form)
  | paramsNotList
  | loopHeader
  | bindingsNotList
  | bindingsNotPaired
  deriving DecidableEq, Repr, Inhabited

namespace Misuse

/-- The name of the form that is misused. -/
def formName : Misuse → String
  | .empty => "()"
  | .arity form => form.name
  | .notSymbol form => form.name
  | .paramsNotList => Form.function.name
  | .loopHeader => Form.loop.name
  | .bindingsNotList => Form.loop.name
  | .bindingsNotPaired => Form.loop.name

/-- What the form asks for. -/
def reason : Misuse → String
  | .empty => "empty form cannot be evaluated"
  | .arity form => "expected " ++ form.shape
  | .notSymbol _ => "expected a symbol"
  | .paramsNotList => "parameter list must be a list"
  | .loopHeader => "header must be (bindings cond step)"
  | .bindingsNotList => "bindings must be a list"
  | .bindingsNotPaired => "bindings must be symbol/initializer pairs"

end Misuse

/-- Why a program fails. -/
inductive Fault where
  /-- The source cannot be scanned. -/
  | unreadable (e : SyntaxError)
  | undefinedSymbol (name : String)
  /-- A quoted symbol is evaluated. -/
  | quoted
  | malformed (misuse : Misuse)
  | reservedName (name : String)
  | notCallable (value : Value)
  /-- A hole is evaluated. -/
  | missingNode (hole : Hole)
  /-- An atom of a kind that has no meaning is evaluated. -/
  | strayToken (kind : TokenKind)
  deriving Repr, Inhabited

namespace Fault

/-- What a hole is called in a report. -/
def holeName : Hole → String
  | .bare => "<nil>"
  | .atom => "*ast.Atom"
  | .branch => "*ast.Branch"

/-- The wording of a fault. -/
def message : Fault → String
  | .unreadable e => e.message
  | .undefinedSymbol name => "symbol " ++ Text.quote name ++ " is not defined"
  | .quoted => "quote is not supported yet"
  | .malformed misuse => "malformed " ++ misuse.formName ++ ": " ++ misuse.reason
  | .reservedName name => "cannot bind reserved name " ++ Text.quote name
  | .notCallable value => value.text ++ " is not a function"
  | .missingNode hole => "internal error: unknown node type " ++ holeName hole
  | .strayToken kind => "internal error: unknown token kind " ++ kind.name

/-- The report of a fault to a user: what cannot be scanned is shown with its place. -/
def report : Fault → String
  | .unreadable e => e.message ++ " (" ++ e.place ++ ")"
  | e => "runtime error: " ++ e.message

end Fault

end Lisplet
