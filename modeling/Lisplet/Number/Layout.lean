import Lisplet.Number.Shortest

/-!
# The text of a number

A number is written with the fewest digits that read back, positionally if its leading digit
stands between the sixth place after the point and the twenty-first before it, and in scientific
form otherwise, with no more digits in the exponent than it needs. Both zeros are written alike.
-/

namespace Lisplet

namespace Decimal

/-- `n` zeros. -/
def zeros (n : Nat) : List Char := List.replicate n '0'

/-- A decimal written out with all its places. -/
def positional (d : Decimal) : List Char :=
  let ds := toDigits d.digits
  match d.exponent with
  | .ofNat k => ds ++ zeros k
  | .negSucc k =>
    let whole := ds.length - (k + 1)
    if 0 < whole then ds.take whole ++ '.' :: ds.drop whole
    else '0' :: '.' :: (zeros (k + 1 - ds.length) ++ ds)

/-- The place of the leading digit of a decimal that is not zero. -/
def place (d : Decimal) : Int := (toDigits d.digits).length + d.exponent - 1

/-- An exponent with its sign and two digits at least. -/
def exponentText (e : Int) : List Char :=
  let ds := toDigits e.natAbs
  (if e < 0 then '-' else '+') :: (zeros (2 - ds.length) ++ ds)

/-- The digits of a decimal with a point after the first one, if it is not the only one. -/
def pointed (d : Decimal) : List Char :=
  match toDigits d.digits with
  | [] => ['0']
  | [c] => [c]
  | c :: rest => c :: '.' :: rest

/-- A decimal written with one digit before the point, and a power of ten. -/
def scientific (d : Decimal) : List Char := d.pointed ++ 'e' :: exponentText d.place

/-- Drop the leading zeros of an exponent; one digit is left. -/
def dropExponentZeros (text : List Char) : List Char :=
  let mantissa := text.takeWhile (· ≠ 'e')
  match text.dropWhile (· ≠ 'e') with
  | mark :: sign :: digits =>
    let digits := digits.dropWhile (· = '0')
    mantissa ++ mark :: sign :: (if digits.isEmpty then ['0'] else digits)
  | _ => text

/-- Whether a decimal is written out with all its places. -/
def isPositional (d : Decimal) : Bool := -7 < d.place && d.place < 21

/-- The text of a positive decimal. -/
def text (d : Decimal) : List Char :=
  if d.isPositional then d.positional else dropExponentZeros d.scientific

end Decimal

/-- The text of a number. -/
def numberText (x : Float) : String :=
  let bits := Binary.magnitude x
  if Binary.infinityBits < bits then "NaN"
  else if bits = Binary.infinityBits then
    if Binary.isNegative x then "-Infinity" else "Infinity"
  else if bits = 0 then "0"
  else
    let text := (Decimal.shortest bits).text
    String.ofList (if Binary.isNegative x then '-' :: text else text)

end Lisplet
