import Lisplet.Number.Binary

/-!
# Decimals

A decimal is a natural number of digits times a power of ten. Far out of the range of doubles its
power of ten is not computed: such a decimal is infinity, or zero.
-/

namespace Lisplet

/-- The number `digits * 10 ^ exponent`. -/
structure Decimal where
  digits : Nat
  exponent : Int
  deriving DecidableEq, Repr, Inhabited

namespace Decimal

/-- The value of a decimal as a quotient. -/
def quotient (d : Decimal) : Nat × Nat :=
  match d.exponent with
  | .ofNat k => (d.digits * tenPow k, 1)
  | .negSucc k => (d.digits, tenPow (k + 1))

/-- The bits of the double nearest to a decimal. -/
def nearestBits (d : Decimal) : Nat :=
  if d.digits = 0 then 0
  else if 400 < d.exponent then Binary.infinityBits
  else if d.exponent < -400 - (Nat.log2 d.digits : Int) then 0
  else Binary.nearestBits d.quotient.1 d.quotient.2

/-- The double nearest to a decimal with a sign. -/
def nearest (negative : Bool) (d : Decimal) : Float :=
  Binary.ofMagnitude negative d.nearestBits

/-- Whether the double nearest to a decimal is infinite. -/
def overflows (d : Decimal) : Bool := d.nearestBits == Binary.infinityBits

/-! ### Digits -/

/-- The value of an ASCII digit. -/
def digitValue (c : Char) : Nat := c.toNat - 0x30

/-- The number that a list of ASCII digits stands for, most significant digit first. -/
def ofDigits (cs : List Char) : Nat := cs.foldl (fun n c => 10 * n + digitValue c) 0

/-- The digits of a number, most significant first; none for zero. -/
def toDigits (n : Nat) : List Char :=
  if n = 0 then [] else toDigits (n / 10) ++ [Char.ofNat (0x30 + n % 10)]
termination_by n

/-- Move trailing zeros of the digits into the exponent; at most `fuel` of them. -/
def stripZeros : Nat → Decimal → Decimal
  | 0, d => d
  | fuel + 1, d =>
    if d.digits % 10 = 0 then stripZeros fuel ⟨d.digits / 10, d.exponent + 1⟩ else d

/-- The same number without trailing zeros among its digits. -/
def normalize (d : Decimal) : Decimal :=
  if d.digits = 0 then ⟨0, 0⟩ else stripZeros (Nat.log2 d.digits) d

end Decimal

end Lisplet
