import Lisplet.Number.Power

/-!
# Rounding to a double

A non-negative rational is rounded to the nearest double, a half going to the even neighbour. A
double is known by its sixty-four bits: below the sign, eleven bits of exponent and fifty-two of
fraction. In units of 2^-1074 the magnitude of a finite double is `significand * 2 ^ unit`, where
the significand has at most fifty-three bits, and only the smallest unit allows fewer than that.

* `Binary.nearestBits`: the bits of the double nearest to a quotient;
* `Binary.nearest`: that double;
* `Binary.significand`, `Binary.unit`: the parts of a double.
-/

namespace Lisplet.Binary

/-- The bits of infinity. -/
def infinityBits : Nat := 0x7ff * twoPow 52

/-- The exponent of the smallest unit. -/
def lowest : Int := -1074

/-- A quotient in units of `2 ^ e`, as numerator and denominator. -/
def inUnits (num den : Nat) (e : Int) : Nat × Nat :=
  match e with
  | .ofNat k => (num, den * twoPow k)
  | .negSucc k => (num * twoPow (k + 1), den)

/-- A quotient rounded to the nearest integer, a half to the even one. -/
def roundHalfEven (num den : Nat) : Nat :=
  let q := num / den
  let r := num % den
  if 2 * r < den then q
  else if den < 2 * r then q + 1
  else q + q % 2

/-- The exponent of the unit in which a positive quotient has fifty-three bits, or the lowest unit
if that one is lower. -/
def unitFor (num den : Nat) : Int :=
  let e : Int := (Nat.log2 num : Int) - Nat.log2 den - 53
  let (n, d) := inUnits num den e
  max lowest (if n / d < twoPow 53 then e else e + 1)

/-- The bits of the double nearest to a quotient. -/
def nearestBits (num den : Nat) : Nat :=
  if num = 0 then 0
  else
    let e := unitFor num den
    let (n, d) := inUnits num den e
    min infinityBits ((e - lowest).toNat * twoPow 52 + roundHalfEven n d)

/-- The double of given magnitude bits and sign. -/
def ofMagnitude (negative : Bool) (bits : Nat) : Float :=
  Float.ofBits (UInt64.ofNat (if negative then twoPow 63 + bits else bits))

/-- The double nearest to a quotient with a sign. -/
def nearest (negative : Bool) (num den : Nat) : Float :=
  ofMagnitude negative (nearestBits num den)

/-- The double nearest to a natural number. -/
def ofNat (n : Nat) : Float := nearest false n 1

/-! ### The parts of a double -/

/-- The bits of a double without its sign. -/
def magnitude (x : Float) : Nat := x.toBits.toNat % twoPow 63

/-- Whether the sign bit of a double is set. -/
def isNegative (x : Float) : Bool := twoPow 63 ≤ x.toBits.toNat

/-- The significand of a finite magnitude. -/
def significand (bits : Nat) : Nat :=
  if bits < twoPow 52 then bits else bits % twoPow 52 + twoPow 52

/-- The exponent of the unit of a finite magnitude. -/
def unit (bits : Nat) : Int := lowest + (bits / twoPow 52 - 1 : Nat)

/-- The exact value of a finite magnitude, as a quotient. -/
def quotient (bits : Nat) : Nat × Nat :=
  match unit bits with
  | .ofNat k => (significand bits * twoPow k, 1)
  | .negSucc k => (significand bits, twoPow (k + 1))

end Lisplet.Binary
