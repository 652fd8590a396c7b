import Lisplet.Value
import Lisplet.Number.Layout

/-!
# The text of a value
-/

namespace Lisplet.Value

/-- The text of a value, as it is printed and as it is joined to other texts. -/
def text : Value → String
  | .undefined => "undefined"
  | .number x => numberText x
  | .string s => s
  | .bool true => "true"
  | .bool false => "false"
  | .function _ => "[Function: fn]"
  | .builtin b => "[Function: " ++ b.name ++ "]"
  | .foreign k => "<" ++ k.name ++ ">"
  | .absent => "undefined"

/-- The line that prints values: their texts with a space between them. -/
def line (vs : List Value) : String := " ".intercalate (vs.map text)

end Lisplet.Value
