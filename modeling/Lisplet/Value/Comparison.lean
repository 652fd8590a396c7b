import Lisplet.Value.Numeric
import Lisplet.Text.Utf8

/-!
# Comparing values

Two texts are ordered by their bytes; any other two values as numbers, and then nothing holds of
what is not a number. Strict equality asks for the same kind and the same value, and functions are
equal only to themselves. Loose equality turns booleans into numbers and functions into their
texts before it compares values of different kinds as numbers.
-/

namespace Lisplet

/-- Whether one list of bytes comes before another: at the first difference, or as a proper
beginning. -/
def bytesLess : List UInt8 → List UInt8 → Bool
  | [], [] => false
  | [], _ :: _ => true
  | _ :: _, [] => false
  | a :: as, b :: bs => a < b || (a == b && bytesLess as bs)

/-- Whether one text comes before another. -/
def textLess (s t : String) : Bool := bytesLess (Text.bytes s) (Text.bytes t)

namespace Value

/-- Whether the first value is less than the second. -/
def less : Value → Value → Bool
  | .string s, .string t => textLess s t
  | a, b => a.toNumber < b.toNumber

/-- Whether the first value is less than the second or equal to it. -/
def lessEqual : Value → Value → Bool
  | .string s, .string t => !textLess t s
  | a, b => a.toNumber ≤ b.toNumber

/-- Whether two values have the same kind and are the same. -/
def strictEq : Value → Value → Bool
  | .number x, .number y => x == y
  | .string s, .string t => s == t
  | .bool a, .bool b => a == b
  | .undefined, .undefined => true
  | .function f, .function g => f.id == g.id
  | .builtin a, .builtin b => a == b
  | _, _ => false

/-- How many turns a value takes to become a number or a text: one for a boolean or a callable. -/
def turns : Value → Nat
  | .bool _ => 1
  | .function _ => 1
  | .builtin _ => 1
  | _ => 0

/-- Whether two values are equal after turning booleans into numbers and callables into texts. -/
def looseEq (a b : Value) : Bool :=
  if a.kind = b.kind then strictEq a b
  else if a.isUndefined || b.isUndefined then false
  else
    match a, b with
    | .bool x, b => looseEq (.number (Value.bool x).toNumber) b
    | a, .bool y => looseEq a (.number (Value.bool y).toNumber)
    | a, b =>
      match _ha : a.isCallable, _hb : b.isCallable with
      | true, true => false
      | true, false => looseEq (.string a.text) b
      | false, true => looseEq a (.string b.text)
      | false, false => a.toNumber == b.toNumber
termination_by a.turns + b.turns
decreasing_by
  all_goals simp_wf
  · simp [turns]
  · simp [turns]
  · cases a <;> simp_all [turns, isCallable]
  · cases b <;> simp_all [turns, isCallable]

end Value

end Lisplet
