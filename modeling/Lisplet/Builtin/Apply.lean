import Lisplet.Value.Arithmetic
import Lisplet.Value.Comparison

/-!
# What builtins compute

Every builtin takes any number of arguments. The four arithmetic ones fold over all of them; the
others read as many as they need and take a missing or absent one as undefined.
-/

namespace Lisplet.Builtin

/-- The answer of a comparison of the first two arguments. -/
def compare (p : Value → Value → Bool) (args : List Value) : Value :=
  .bool (p (Value.argument args 0) (Value.argument args 1))

/-- The value of a builtin at its arguments. Printing has no value of its own. -/
def apply : Builtin → List Value → Value
  | .print, _ => .undefined
  | .add, args => Value.foldArgs Value.add args
  | .subtract, args => Value.foldArgs Value.subtract args
  | .multiply, args => Value.foldArgs Value.multiply args
  | .divide, args => Value.foldArgs Value.divide args
  | .greater, args => compare (fun a b => b.less a) args
  | .greaterEqual, args => compare (fun a b => b.lessEqual a) args
  | .less, args => compare Value.less args
  | .lessEqual, args => compare Value.lessEqual args
  | .strictEqual, args => compare Value.strictEq args
  | .strictUnequal, args => compare (fun a b => !a.strictEq b) args
  | .looseEqual, args => compare Value.looseEq args
  | .looseUnequal, args => compare (fun a b => !a.looseEq b) args
  | .not, args => .bool (!(Value.argument args 0).truthy)

end Lisplet.Builtin
