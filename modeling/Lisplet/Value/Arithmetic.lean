import Lisplet.Value.Numeric

/-!
# Arithmetic on values

`+` adds two numbers and joins the texts of any other two values; `-`, `*` and `/` take both
operands as numbers. With several arguments an operation is applied from left to right.
-/

namespace Lisplet.Value

/-- The sum of two numbers, or the joined texts of two values. -/
def add : Value → Value → Value
  | .number x, .number y => .number (x + y)
  | a, b => .string (a.text ++ b.text)

/-- The difference of two values as numbers. -/
def subtract (a b : Value) : Value := .number (a.toNumber - b.toNumber)

/-- The product of two values as numbers. -/
def multiply (a b : Value) : Value := .number (a.toNumber * b.toNumber)

/-- The quotient of two values as numbers. -/
def divide (a b : Value) : Value := .number (a.toNumber / b.toNumber)

/-- Apply an operation to a list of values from left to right. One value stays as it is, and no
value gives undefined. -/
def foldArgs (op : Value → Value → Value) : List Value → Value
  | [] => .undefined
  | v :: vs => vs.foldl op v

@[simp] theorem foldArgs_nil (op : Value → Value → Value) : foldArgs op [] = .undefined := rfl

@[simp] theorem foldArgs_singleton (op : Value → Value → Value) (v : Value) :
    foldArgs op [v] = v := rfl

theorem foldArgs_cons_cons (op : Value → Value → Value) (v w : Value) (vs : List Value) :
    foldArgs op (v :: w :: vs) = foldArgs op (op v w :: vs) := rfl

end Lisplet.Value
