import Lisplet.Builtin
import Lisplet.Node

/-!
# Values

What an expression evaluates to. Besides the values of the language itself there are two that only
reach a program from outside: an absent value, and a foreign one of which nothing is known but its
kind.
-/

namespace Lisplet

/-- The kind of a value. -/
inductive Kind where
  | undefined
  | number
  | string
  | bool
  | function
  | builtin
  /-- A code outside the language's own six. -/
  | other (code : Int)
  deriving DecidableEq, Repr, Inhabited

namespace Kind

/-- The kind with a given code. -/
def ofCode : Int → Kind
  | 0 => .undefined
  | 1 => .number
  | 2 => .string
  | 3 => .bool
  | 4 => .function
  | 5 => .builtin
  | code => .other code

/-- The name of a kind. -/
def name : Kind → String
  | .undefined => "undefined"
  | .number => "number"
  | .string => "string"
  | .bool => "bool"
  | .function => "function"
  | .builtin => "native_function"
  | .other code => "unknown_kind_" ++ toString code

end Kind

/-- A function of the program. Two functions are the same only if they were made by the same
evaluation, which their identities tell. -/
structure Function where
  id : Nat
  params : List String
  body : Node
  deriving Repr, Inhabited

/-- A value. -/
inductive Value where
  | undefined
  | number (x : Float)
  | string (s : String)
  | bool (b : Bool)
  | function (f : Function)
  | builtin (b : Builtin)
  /-- A value of which only the kind is known. -/
  | foreign (kind : Kind)
  /-- No value at all. -/
  | absent
  deriving Repr, Inhabited

namespace Value

/-- The kind of a value; an absent one counts as undefined. -/
def kind : Value → Kind
  | .undefined => .undefined
  | .number _ => .number
  | .string _ => .string
  | .bool _ => .bool
  | .function _ => .function
  | .builtin _ => .builtin
  | .foreign k => k
  | .absent => .undefined

/-- Whether a value can be called. -/
def isCallable : Value → Bool
  | .function _ => true
  | .builtin _ => true
  | _ => false

/-- Whether a value is undefined. -/
def isUndefined : Value → Bool
  | .undefined => true
  | _ => false

/-- Whether a value is the boolean true; no other value will do. -/
def isTrue : Value → Bool
  | .bool b => b
  | _ => false

/-- A value, or undefined for an absent one. -/
def orUndefined : Value → Value
  | .absent => .undefined
  | v => v

/-- The argument at a position, undefined if there is none. -/
def argument (args : List Value) (position : Nat) : Value :=
  match args[position]? with
  | some v => v.orUndefined
  | none => .undefined

end Value

end Lisplet
