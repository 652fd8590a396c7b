import Lisplet.Number.Decimal
import Lisplet.Number.Separator

/-!
# Numerals

The general form of a numeral: the words for infinity and for what is not a number in any case;
decimals with an optional point and an optional power of ten; and hexadecimals with an optional
point and a power of two. Digits may be separated by underscores.

* `Numeral.parse?`: what a text denotes, exactly;
* `Numeral.toFloat`: the nearest double;
* `Numeral.overflows`: whether a finite numeral is beyond the doubles.
-/

namespace Lisplet

/-- What a numeral denotes. -/
inductive Numeral where
  | nan
  | infinite (negative : Bool)
  | decimal (negative : Bool) (value : Decimal)
  /-- The number `digits * 2 ^ exponent`. -/
  | binary (negative : Bool) (digits : Nat) (exponent : Int)
  deriving DecidableEq, Repr

namespace Numeral

/-! ### Reading -/

/-- The value of a hexadecimal digit. -/
def hexValue (c : Char) : Nat :=
  if c.isDigit then c.toNat - 0x30
  else if 'a' ≤ c then c.toNat - 0x57
  else c.toNat - 0x37

/-- The number that a list of hexadecimal digits stands for. -/
def ofHexDigits (cs : List Char) : Nat := cs.foldl (fun n c => 16 * n + hexValue c) 0

/-- Split off the characters of a class. -/
def span (p : Char → Bool) (cs : List Char) : List Char × List Char :=
  (cs.takeWhile p, cs.dropWhile p)

/-- Read a mantissa: digits, and digits after an optional point. Returns both and the rest. -/
def mantissa (isDigit : Char → Bool) (cs : List Char) : List Char × List Char × List Char :=
  let member c := isDigit c || c = '_'
  let (whole, rest) := span member cs
  match rest with
  | '.' :: rest =>
    let (fraction, rest) := span member rest
    (whole, fraction, rest)
  | rest => (whole, [], rest)

/-- The value of the digits of an exponent. Digits after the fifth place no longer count. -/
def exponentValue (cs : List Char) : Nat :=
  cs.foldl (fun e c => if e < 10000 then 10 * e + Decimal.digitValue c else e) 0

/-- Read a power: a mark, an optional sign and digits up to the end of the text. No text stands
for the power 0. -/
def power? (mark : Char) : List Char → Option Int
  | [] => some 0
  | c :: cs =>
    if c.toLower ≠ mark then none
    else
      let digits := dropSign cs
      let value : Int := exponentValue (dropSeparators digits)
      if digits.head?.any Char.isDigit && digits.all (fun c => c.isDigit || c = '_') then
        some (if cs.head? = some '-' then -value else value)
      else none

/-- Read a decimal without a sign. -/
def decimal? (cs : List Char) : Option Decimal := do
  let (whole, fraction, rest) := mantissa Char.isDigit cs
  let whole := dropSeparators whole
  let fraction := dropSeparators fraction
  if (whole ++ fraction).isEmpty then none
  let e ← power? 'e' rest
  return ⟨Decimal.ofDigits (whole ++ fraction), e - fraction.length⟩

/-- Read a hexadecimal without a sign and without its mark `0x`. It has to have a power. -/
def binary? (cs : List Char) : Option (Nat × Int) := do
  let (whole, fraction, rest) := mantissa isHexDigit cs
  let whole := dropSeparators whole
  let fraction := dropSeparators fraction
  if (whole ++ fraction).isEmpty || rest.isEmpty then none
  let e ← power? 'p' rest
  return (ofHexDigits (whole ++ fraction), e - 4 * fraction.length)

/-- Read a numeral without its sign. -/
def magnitude? (negative : Bool) (cs : List Char) : Option Numeral :=
  match cs with
  | '0' :: x :: c :: rest =>
    if x = 'x' || x = 'X' then (binary? (c :: rest)).map fun (n, e) => .binary negative n e
    else (decimal? cs).map (.decimal negative)
  | cs => (decimal? cs).map (.decimal negative)

/-- What a text denotes. -/
def parse? (text : String) : Option Numeral :=
  let cs := text.toList
  let negative := cs.head? = some '-'
  let word := String.ofList ((dropSign cs).map Char.toLower)
  if word = "inf" || word = "infinity" then some (.infinite negative)
  else if String.ofList (cs.map Char.toLower) = "nan" then some .nan
  else if separated cs then magnitude? negative (dropSign cs)
  else none

/-- Whether a text is a decimal in plain form: an optional sign, digits with a point before, among
or after them, and an optional power of ten. -/
def isPlainDecimal (cs : List Char) : Bool :=
  let (whole, rest) := span Char.isDigit (dropSign cs)
  let (fraction, rest) :=
    match rest with
    | '.' :: rest => span Char.isDigit rest
    | rest => ([], rest)
  let power :=
    match rest with
    | [] => true
    | e :: rest =>
      let digits := dropSign rest
      (e = 'e' || e = 'E') && !digits.isEmpty && digits.all Char.isDigit
  !(whole ++ fraction).isEmpty && power

/-! ### Values -/

/-- The bits of the double nearest to `digits * 2 ^ exponent`. -/
def binaryBits (digits : Nat) (exponent : Int) : Nat :=
  if digits = 0 then 0
  else if 2000 < exponent then Binary.infinityBits
  else if exponent < -2000 - (Nat.log2 digits : Int) then 0
  else
    match exponent with
    | .ofNat k => Binary.nearestBits (digits * twoPow k) 1
    | .negSucc k => Binary.nearestBits digits (twoPow (k + 1))

/-- The double that is not a number. -/
def nanFloat : Float := Float.ofBits 0x7ff8000000000000

/-- The double nearest to a numeral. -/
def toFloat : Numeral → Float
  | .nan => nanFloat
  | .infinite negative => Binary.ofMagnitude negative Binary.infinityBits
  | .decimal negative d => d.nearest negative
  | .binary negative n e => Binary.ofMagnitude negative (binaryBits n e)

/-- Whether a numeral is finite and the double nearest to it is not. -/
def overflows : Numeral → Bool
  | .nan => false
  | .infinite _ => false
  | .decimal _ d => d.overflows
  | .binary _ n e => binaryBits n e == Binary.infinityBits

end Numeral

/-- The number that a literal stands for; a text that is no numeral is not a number. -/
def literalValue (text : String) : Float :=
  match Numeral.parse? text with
  | some n => n.toFloat
  | none => Numeral.nanFloat

end Lisplet
