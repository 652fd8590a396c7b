import Lisplet.Number.Integer
import Lisplet.Yaml.Fault
import Lisplet.Timestamp

/-!
# What a plain scalar stands for

A plain scalar without a tag is null, a boolean, an integer, a number, a timestamp, or else a text,
which its spelling alone decides. A tag may ask for one of these types, and then the spelling has to
agree with it. Any other tag leaves the text as it is, whatever its spelling.
-/

namespace Lisplet.Yaml

/-- What a scalar stands for. -/
inductive Resolved where
  | null
  | bool (b : Bool)
  | integer (n : Int)
  | float (x : Float)
  | timestamp
  | text (s : String)
  | binary (s : String)
  /-- A text with a tag that says nothing about its spelling. -/
  | tagged (tag s : String)

namespace Resolved

/-- The tag of a type. -/
def tag : Resolved → String
  | .null => "!!null"
  | .bool _ => "!!bool"
  | .integer _ => "!!int"
  | .float _ => "!!float"
  | .timestamp => "!!timestamp"
  | .text _ => "!!str"
  | .binary _ => "!!binary"
  | .tagged tag _ => tag

end Resolved

/-- The beginning of the tags of the language itself. -/
def longTagStart : String := "tag:yaml.org,2002:"

/-- A tag, two exclamation marks standing for the beginning of the language's own. -/
def shortTag (tag : String) : String :=
  if tag.startsWith longTagStart then "!!" ++ (tag.drop longTagStart.length).toString else tag

namespace Implicit

/-- The scalars that are known by their whole spelling. -/
def word? (s : String) : Option Resolved :=
  if ["true", "True", "TRUE"].contains s then some (.bool true)
  else if ["false", "False", "FALSE"].contains s then some (.bool false)
  else if ["", "~", "null", "Null", "NULL"].contains s then some .null
  else if [".nan", ".NaN", ".NAN"].contains s then some (.float Numeral.nanFloat)
  else if [".inf", ".Inf", ".INF", "+.inf", "+.Inf", "+.INF"].contains s then
    some (.float (Numeral.infinite false).toFloat)
  else if ["-.inf", "-.Inf", "-.INF"].contains s then some (.float (Numeral.infinite true).toFloat)
  else none

/-- The number of a numeral that is within the doubles. -/
def float? (s : String) : Option Resolved :=
  match Numeral.parse? s with
  | some n => if n.overflows then none else some (.float n.toFloat)
  | none => none

/-- An integer, signed or as large as a word allows. -/
def integer? (cs : List Char) : Option Resolved :=
  match Numeral.prefixedSigned cs, Numeral.prefixedUnsigned cs with
  | .ok n, _ => some (.integer n)
  | _, .ok n => some (.integer n)
  | _, _ => none

/-- An integer whose sign stands after the prefix of its base. -/
def innerSigned? : List Char → Option Resolved
  | '0' :: 'b' :: cs => (Numeral.signed 2 cs).toOption.map .integer
  | '0' :: 'o' :: cs => (Numeral.signed 8 cs).toOption.map .integer
  | _ => none

/-- The number or the date that a text stands for. A date counts only where `dates` says so. -/
def number? (dates : Bool) (s : String) : Option Resolved :=
  if dates && Timestamp.isTimestamp s then some .timestamp
  else
    let plain := Numeral.dropSeparators s.toList
    match integer? plain with
    | some r => some r
    | none =>
      match if Numeral.isPlainDecimal plain then float? (String.ofList plain) else none with
      | some r => some r
      | none => innerSigned? plain

/-- What the spelling of a scalar stands for, if it is not a text. -/
def special? (dates : Bool) (s : String) : Option Resolved :=
  match word? s with
  | some r => some r
  | none =>
    match s.toList.head? with
    | some '.' => float? s
    | some c => if c.isDigit || c = '+' || c = '-' then number? dates s else none
    | none => none

end Implicit

/-- Whether a tag, if there is one, asks for a spelling. -/
def asksForSpelling (tag : String) : Bool :=
  ["", "!!bool", "!!int", "!!float", "!!null", "!!timestamp"].contains tag

/-- What a scalar with a given tag stands for. The empty tag leaves it to the spelling. -/
def resolve (tag text : String) : Except Fault Resolved :=
  let tag := shortTag tag
  if tag = "!!str" then .ok (.text text)
  else if tag = "!!binary" then .ok (.binary text)
  else if !asksForSpelling tag then .ok (.tagged tag text)
  else
    let r := (Implicit.special? (tag.isEmpty || tag = "!!timestamp") text).getD (.text text)
    if tag.isEmpty || r.tag = tag then .ok r
    else
      match r with
      | .integer n =>
        if tag = "!!float" && n < twoPow 63 then .ok (.float (Binary.nearest (n < 0) n.natAbs 1))
        else .error { problem := .wrongTag r.tag text tag }
      | r => .error { problem := .wrongTag r.tag text tag }

end Lisplet.Yaml
