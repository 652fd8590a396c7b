import Mathlib
import Lisplet.Number.Numeral

/-!
# Doubles

Whether a double is a number shows in its bits, and every double that is made from a decimal is one.

* `isNaN_ofBits`, `isNaN_ofMagnitude`: the bits of what is not a number;
* `nanFloat_beq`: what is not a number is equal to nothing;
* `Decimal.isNaN_nearest`: a decimal is a number.
-/

namespace Lisplet.Binary

open Float.Model Float.Model.UnpackedFloat

theorem isNaN_unpack {spec : Format} (b : BitVec spec.numBits) :
    (unpack spec b).isNaN = isNaNBits b := by
  simp only [UnpackedFloat.unpack, isNaNBits]
  split_ifs <;> simp_all [UnpackedFloat.isNaN]

theorem toNat_unpackExponent (b : BitVec Format.binary64.numBits) :
    (unpackExponent b).toNat = b.toNat / 2 ^ 52 % 2 ^ 11 := by
  simp [unpackExponent, Nat.shiftRight_eq_div_pow]

theorem toNat_unpackMantissa (b : BitVec Format.binary64.numBits) :
    (unpackMantissa b).toNat = b.toNat % 2 ^ 52 := by
  simp [unpackMantissa]

/-- What is not a number has the exponent of infinity and more. -/
theorem isNaN_ofBits (b : UInt64) :
    (Float.ofBits b).isNaN = true ↔ infinityBits < b.toNat % twoPow 63 := by
  have hbits : (Float.ofBits b).isNaN = @isNaNBits .binary64 b.toBitVec := by
    show (unpack .binary64 (pack .binary64 (unpack .binary64 b.toBitVec))).isNaN = _
    rw [pack_unpack]
    split
    · rename_i hnan
      rw [unpack_packedNaN, hnan]
      rfl
    · exact isNaN_unpack _
  rw [hbits, isNaNBits, decide_eq_true_eq, Ne, ← BitVec.toNat_inj, ← BitVec.toNat_inj,
    toNat_unpackExponent, toNat_unpackMantissa]
  show (b.toNat / 2 ^ 52 % 2 ^ 11 = 2047 ∧ ¬ b.toNat % 2 ^ 52 = 0) ↔
    2047 * 2 ^ 52 < b.toNat % 2 ^ 63
  omega

theorem isNaN_nanFloat : Numeral.nanFloat.isNaN = true := by
  rw [Numeral.nanFloat, isNaN_ofBits]
  decide

theorem nanFloat_beq (x : Float) : (Numeral.nanFloat == x) = false := by
  have hnan : Numeral.nanFloat = Float.nan := by
    simpa only [Float.isNaN_eq_decide_eq_nan, decide_eq_true_eq] using isNaN_nanFloat
  rw [hnan, Float.nan_beq_eq_false]

/-- Magnitudes up to infinity are numbers. -/
theorem isNaN_ofMagnitude (negative : Bool) {bits : Nat} (hbits : bits ≤ infinityBits) :
    (ofMagnitude negative bits).isNaN = false := by
  have hle : bits ≤ 2047 * 2 ^ 52 := hbits
  rw [ofMagnitude, ← Bool.not_eq_true, isNaN_ofBits, UInt64.toNat_ofNat', Nat.not_lt]
  show _ % 2 ^ 63 ≤ 2047 * 2 ^ 52
  cases negative with
  | false =>
    simp only [Bool.false_eq_true, if_false]
    omega
  | true =>
    show (2 ^ 63 + bits) % 2 ^ 64 % 2 ^ 63 ≤ 2047 * 2 ^ 52
    omega

theorem nearestBits_le (num den : Nat) : nearestBits num den ≤ infinityBits := by
  rw [nearestBits]
  split
  · exact Nat.zero_le _
  · exact Nat.min_le_left _ _

end Lisplet.Binary

namespace Lisplet.Decimal

theorem nearestBits_le (d : Decimal) : d.nearestBits ≤ Binary.infinityBits := by
  rw [nearestBits]
  split_ifs
  · exact Nat.zero_le _
  · exact Nat.le_refl _
  · exact Nat.zero_le _
  · exact Binary.nearestBits_le _ _

/-- The double nearest to a decimal is a number. -/
theorem isNaN_nearest (negative : Bool) (d : Decimal) : (d.nearest negative).isNaN = false :=
  Binary.isNaN_ofMagnitude negative d.nearestBits_le

end Lisplet.Decimal
