import Lisplet.Value.Text
import Lisplet.Number.Integer
import Lisplet.Text.Blank

/-!
# Values as numbers and as conditions

A text is read as a number in three ways: the words for infinity, whole numbers with the prefix of
a base that fit in sixty-four bits, and decimals. A text with nothing but white space is zero, and
every other text is not a number.
-/

namespace Lisplet

namespace Numeral

/-- The positive infinity. -/
def infinity : Float := Binary.ofMagnitude false Binary.infinityBits

/-- The negative infinity. -/
def negativeInfinity : Float := Binary.ofMagnitude true Binary.infinityBits

/-- The base that a letter after a leading zero stands for. -/
def baseOfLetter? : Char → Option Nat
  | 'x' => some 16
  | 'X' => some 16
  | 'o' => some 8
  | 'O' => some 8
  | 'b' => some 2
  | 'B' => some 2
  | _ => none

/-- The digits of a whole number with the prefix of a base, and the base. -/
def prefixed? : List Char → Option (Nat × List Char)
  | '0' :: letter :: c :: rest => (baseOfLetter? letter).map (·, c :: rest)
  | _ => none

/-- The number that a text stands for, white space around it left aside. -/
def ofText (s : String) : Float :=
  let cs := Text.trimChars s.toList
  let word := String.ofList cs
  if cs.isEmpty then Binary.ofNat 0
  else if word = "Infinity" || word = "+Infinity" then infinity
  else if word = "-Infinity" then negativeInfinity
  else
    match prefixed? cs with
    | some (base, digits) =>
      match unsigned base digits with
      | .ok n => Binary.ofNat n
      | .error _ => nanFloat
    | none => if isPlainDecimal cs then literalValue word else nanFloat

end Numeral

namespace Value

/-- A value as a number. -/
def toNumber : Value → Float
  | .number x => x
  | .bool true => Binary.ofNat 1
  | .bool false => Binary.ofNat 0
  | .string s => Numeral.ofText s
  | _ => Numeral.nanFloat

/-- Whether a value counts as true where any value may stand. -/
def truthy : Value → Bool
  | .bool b => b
  | .number x => x != Binary.ofNat 0 && !x.isNaN
  | .string s => !s.isEmpty
  | .undefined => false
  | .absent => false
  | _ => true

end Value

end Lisplet
