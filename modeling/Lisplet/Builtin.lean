/-!
# Builtins

The operations that every program finds in its outermost frame, in their usual order.
-/

namespace Lisplet

/-- A builtin operation. -/
inductive Builtin where
  | print
  | add
  | subtract
  | multiply
  | divide
  | greater
  | greaterEqual
  | less
  | lessEqual
  | strictEqual
  | strictUnequal
  | looseEqual
  | looseUnequal
  | not
  deriving DecidableEq, Repr, Inhabited

namespace Builtin

/-- The name under which a builtin is bound. -/
def name : Builtin → String
  | .print => "print"
  | .add => "+"
  | .subtract => "-"
  | .multiply => "*"
  | .divide => "/"
  | .greater => ">"
  | .greaterEqual => ">="
  | .less => "<"
  | .lessEqual => "<="
  | .strictEqual => "==="
  | .strictUnequal => "!=="
  | .looseEqual => "=="
  | .looseUnequal => "!="
  | .not => "!"

/-- Every builtin. -/
def all : List Builtin :=
  [.print, .add, .subtract, .multiply, .divide, .greater, .greaterEqual, .less, .lessEqual,
    .strictEqual, .strictUnequal, .looseEqual, .looseUnequal, .not]

theorem mem_all (b : Builtin) : b ∈ all := by
  cases b <;> decide

end Builtin

end Lisplet
