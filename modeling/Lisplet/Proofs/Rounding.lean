import Lisplet.Number.Decimal
import Mathlib.Algebra.Order.Field.Power
import Mathlib.Data.Rat.Cast.Order
import Mathlib.Tactic

/-!
# Rounding is to the nearest double

The magnitudes of doubles are numbered by their bits in ascending order, infinity standing for the
power of two after the largest finite one. A rational is rounded to the magnitude nearest to it, of
two that are equally near to the one with even bits. There is exactly one such magnitude, so it does
not matter in which form the rational was given.

* `Binary.value`, `Binary.value_strictMono`: the rational that a magnitude stands for;
* `Binary.IsNearest`, `Binary.IsNearest.unique`: the nearest magnitude;
* `Binary.isNearest_nearestBits`, `Decimal.isNearest_nearestBits`: quotients and decimals are
  rounded to it;
* `Binary.isNearest_value`: a double is rounded to itself.
-/

namespace Lisplet.Binary

/-! ### The value of a magnitude -/

/-- The rational that a magnitude stands for. -/
def value (bits : Nat) : ℚ := significand bits * 2 ^ unit bits

/-- Every magnitude is a count of units and a significand, which is full but in the lowest unit. -/
theorem exists_parts (bits : Nat) :
    ∃ k r, bits = k * 2 ^ 52 + r ∧ r < 2 ^ 53 ∧ (k = 0 ∨ 2 ^ 52 ≤ r) := by
  by_cases hbits : bits < 2 ^ 53
  · exact ⟨0, bits, by omega, hbits, .inl rfl⟩
  · exact ⟨bits / 2 ^ 52 - 1, bits % 2 ^ 52 + 2 ^ 52, by omega, by omega, .inr (by omega)⟩

/-- A count of units and a significand give a value, also if rounding has filled the significand up
to the next power of two. -/
theorem value_parts {k r : Nat} (hr : r ≤ 2 ^ 53) (hk : k = 0 ∨ 2 ^ 52 ≤ r) :
    value (k * 2 ^ 52 + r) = r * 2 ^ (lowest + k) := by
  rw [value, significand, unit]
  show ((if k * 2 ^ 52 + r < 2 ^ 52 then k * 2 ^ 52 + r
      else (k * 2 ^ 52 + r) % 2 ^ 52 + 2 ^ 52 : Nat) : ℚ) *
    2 ^ (lowest + ((k * 2 ^ 52 + r) / 2 ^ 52 - 1 : Nat)) = r * 2 ^ (lowest + k)
  rcases Nat.lt_or_eq_of_le hr with hlt | rfl
  · have hunit : (k * 2 ^ 52 + r) / 2 ^ 52 - 1 = k := by omega
    have hpart : (if k * 2 ^ 52 + r < 2 ^ 52 then k * 2 ^ 52 + r
        else (k * 2 ^ 52 + r) % 2 ^ 52 + 2 ^ 52) = r := by
      split <;> omega
    rw [hunit, hpart]
  · have hunit : (k * 2 ^ 52 + 2 ^ 53) / 2 ^ 52 - 1 = k + 1 := by omega
    have hpart : (if k * 2 ^ 52 + 2 ^ 53 < 2 ^ 52 then k * 2 ^ 52 + 2 ^ 53
        else (k * 2 ^ 52 + 2 ^ 53) % 2 ^ 52 + 2 ^ 52) = 2 ^ 52 := by
      split <;> omega
    rw [hunit, hpart, Nat.cast_succ, ← add_assoc, zpow_add_one₀ (by norm_num)]
    norm_num
    ring

theorem value_strictMono : StrictMono value := by
  refine strictMono_nat_of_lt_succ fun bits => ?_
  obtain ⟨k, r, rfl, hr, hk⟩ := exists_parts bits
  rw [value_parts hr.le hk, add_assoc, value_parts hr (hk.imp_right Nat.le_succ_of_le)]
  have hpos : (0 : ℚ) < 2 ^ (lowest + k) := by positivity
  push_cast
  linarith

@[simp] theorem value_zero : value 0 = 0 := by
  simp [value, significand, twoPow]

/-! ### Rounding to an integer -/

/-- An integer is nearest to a rational, and even if another one is equally near. -/
structure IsRounded (y : ℚ) (r : Nat) : Prop where
  near : |y - r| ≤ 1 / 2
  even : |y - r| = 1 / 2 → Even r

theorem isRounded_roundHalfEven (num : Nat) {den : Nat} (hden : 0 < den) :
    IsRounded (num / den) (roundHalfEven num den) := by
  have hpos : (0 : ℚ) < den := by exact_mod_cast hden
  have hquot : (num / den : ℚ) = (num / den : Nat) + (num % den : Nat) / den := by
    field_simp
    exact_mod_cast (Nat.div_add_mod num den).symm
  have hlt : num % den < den := Nat.mod_lt num hden
  obtain ⟨t, ht⟩ : ∃ t : ℚ, t = (num % den : Nat) / den := ⟨_, rfl⟩
  have ht₀ : 0 ≤ t := by rw [ht]; positivity
  have hlt : t < 1 := by
    rw [ht, div_lt_one hpos]
    exact_mod_cast Nat.mod_lt num hden
  have hhalf : (2 * (num % den) < den ↔ t < 1 / 2) ∧ (den < 2 * (num % den) ↔ 1 / 2 < t) := by
    rw [ht, div_lt_div_iff₀ hpos two_pos, div_lt_div_iff₀ two_pos hpos, one_mul, mul_comm _ (2 : ℚ)]
    exact ⟨by exact_mod_cast Iff.rfl, by exact_mod_cast Iff.rfl⟩
  rw [hquot, ← ht, roundHalfEven]
  -- The remainder tells on which side of the middle between two integers the quotient lies.
  by_cases h₁ : t < 1 / 2
  · rw [if_pos (hhalf.1.2 h₁)]
    have hdist : |((num / den : Nat) : ℚ) + t - (num / den : Nat)| = t := by
      rw [add_sub_cancel_left, abs_of_nonneg ht₀]
    exact ⟨by linarith, fun h => absurd h (by linarith)⟩
  · rw [if_neg (mt hhalf.1.1 h₁)]
    by_cases h₂ : 1 / 2 < t
    · rw [if_pos (hhalf.2.2 h₂)]
      have hdist : |((num / den : Nat) : ℚ) + t - (num / den + 1 : Nat)| = 1 - t := by
        rw [Nat.cast_succ, add_sub_add_left_eq_sub, abs_sub_comm, abs_of_pos (by linarith)]
      exact ⟨by linarith, fun h => absurd h (by linarith)⟩
    · rw [if_neg (mt hhalf.2.1 h₂)]
      have hmiddle : t = 1 / 2 := by linarith
      have heven : Even (num / den + num / den % 2) := by
        rw [Nat.even_iff]
        omega
      refine ⟨?_, fun _ => heven⟩
      rcases Nat.mod_two_eq_zero_or_one (num / den) with h | h
      · rw [h, hmiddle, add_zero, add_sub_cancel_left, abs_of_pos one_half_pos]
      · rw [h, hmiddle, Nat.cast_succ, add_sub_add_left_eq_sub]
        norm_num [abs_of_neg]

theorem IsRounded.half_le {y : ℚ} {r m : Nat} (h : IsRounded y r) (hm : m ≠ r) :
    1 / 2 ≤ |y - m| := by
  have hone : (1 : ℚ) ≤ |(m : ℚ) - r| := by
    have hint : (1 : ℤ) ≤ |(m : ℤ) - r| := Int.one_le_abs (by omega)
    exact_mod_cast hint
  have htriangle : |(m : ℚ) - r| ≤ |(m : ℚ) - y| + |y - r| := abs_sub_le (m : ℚ) y r
  have hnear := h.near
  rw [abs_sub_comm y m]
  linarith

theorem IsRounded.closest {y : ℚ} {r : Nat} (h : IsRounded y r) (m : Nat) :
    |y - r| ≤ |y - m| := by
  by_cases hm : m = r
  · rw [hm]
  · exact h.near.trans (h.half_le hm)

theorem IsRounded.even_of_tie {y : ℚ} {r m : Nat} (h : IsRounded y r) (hm : m ≠ r)
    (htie : |y - m| = |y - r|) : Even r :=
  h.even (le_antisymm h.near (htie ▸ h.half_le hm))

theorem IsRounded.le_of_le {y : ℚ} {r n : Nat} (h : IsRounded y r) (hn : n ≤ y) : n ≤ r := by
  by_contra hlt
  have hsucc : (r : ℚ) + 1 ≤ n := by exact_mod_cast Nat.not_le.1 hlt
  have hnear := (abs_le.1 h.near).2
  linarith

theorem IsRounded.le_of_ge {y : ℚ} {r n : Nat} (h : IsRounded y r) (hn : y ≤ n) : r ≤ n := by
  by_contra hlt
  have hsucc : (n : ℚ) + 1 ≤ r := by exact_mod_cast Nat.not_le.1 hlt
  have hnear := (abs_le.1 h.near).1
  linarith

/-! ### The nearest double -/

/-- A magnitude is nearest to a rational, and has even bits if another one is equally near. -/
structure IsNearest (q : ℚ) (bits : Nat) : Prop where
  le : bits ≤ infinityBits
  closest : ∀ b ≤ infinityBits, |q - value bits| ≤ |q - value b|
  even : ∀ b ≤ infinityBits, b ≠ bits → |q - value b| = |q - value bits| → Even bits

/-- A rational that fills its unit is rounded to a multiple of the unit. -/
theorem closest_on_grid {y : ℚ} {k r : Nat} (hy : IsRounded y r) (hlt : y < 2 ^ 53)
    (hk : k = 0 ∨ 2 ^ 52 ≤ y) {b : Nat} (hb : b ≠ k * 2 ^ 52 + r) :
    |y * 2 ^ (lowest + k) - value (k * 2 ^ 52 + r)| ≤ |y * 2 ^ (lowest + k) - value b| ∧
      (|y * 2 ^ (lowest + k) - value b| = |y * 2 ^ (lowest + k) - value (k * 2 ^ 52 + r)| →
        Even (k * 2 ^ 52 + r)) := by
  have hle : r ≤ 2 ^ 53 := hy.le_of_ge (by exact_mod_cast hlt.le)
  have hfull : k = 0 ∨ 2 ^ 52 ≤ r := hk.imp_right fun h => hy.le_of_le (by exact_mod_cast h)
  have hunit : (0 : ℚ) < 2 ^ (lowest + k) := by positivity
  have hscale : ∀ z : ℚ, |y * 2 ^ (lowest + k) - z * 2 ^ (lowest + k)| =
      |y - z| * 2 ^ (lowest + k) := by
    intro z
    rw [← sub_mul, abs_mul, abs_of_pos hunit]
  have heven : Even (k * 2 ^ 52) := (Nat.even_pow.2 ⟨even_two, by norm_num⟩).mul_left k
  rw [value_parts hle hfull, hscale]
  obtain ⟨k', r', rfl, hr', hk'⟩ := exists_parts b
  by_cases hkk : k ≤ k'
  · -- The other double is a multiple of the same unit.
    obtain ⟨j, rfl⟩ := Nat.exists_eq_add_of_le hkk
    have hmultiple : (r' : ℚ) * 2 ^ (lowest + (k + j : Nat)) =
        (r' * 2 ^ j : Nat) * 2 ^ (lowest + k) := by
      rw [Nat.cast_add, ← add_assoc, zpow_add₀ (by norm_num), zpow_natCast]
      push_cast
      ring
    have hne : r' * 2 ^ j ≠ r := by
      rintro rfl
      refine hb (value_strictMono.injective ?_)
      rw [value_parts hr'.le hk', value_parts hle hfull, hmultiple]
    rw [value_parts hr'.le hk', hmultiple, hscale, mul_le_mul_iff_left₀ hunit,
      mul_left_inj' hunit.ne']
    exact ⟨hy.closest _, fun htie => heven.add (hy.even_of_tie hne htie)⟩
  · -- The other double lies below the least one with this unit, which is no further away.
    have hsmall : value (k' * 2 ^ 52 + r') < value (k * 2 ^ 52 + 2 ^ 52) :=
      value_strictMono (by omega)
    rw [value_parts (by norm_num) (.inr le_rfl)] at hsmall
    have hleast : (2 : ℚ) ^ 52 ≤ y := hk.resolve_left (by omega)
    have hclosest : |y - r| * 2 ^ (lowest + k) ≤ |y - (2 ^ 52 : Nat)| * 2 ^ (lowest + k) :=
      mul_le_mul_of_nonneg_right (hy.closest _) hunit.le
    rw [Nat.cast_pow, Nat.cast_ofNat] at hsmall hclosest
    rw [abs_of_nonneg (sub_nonneg.2 hleast), sub_mul] at hclosest
    have hdist := le_abs_self (y * 2 ^ (lowest + k) - value (k' * 2 ^ 52 + r'))
    exact ⟨by linarith, fun htie => absurd htie (by linarith)⟩

/-! ### The unit of a quotient -/

theorem inUnits_pos {den : Nat} (num : Nat) (hden : 0 < den) (e : Int) :
    0 < (inUnits num den e).2 := by
  cases e with
  | ofNat k => exact Nat.mul_pos hden (Nat.two_pow_pos k)
  | negSucc k => exact hden

theorem inUnits_div (num den : Nat) (e : Int) :
    ((inUnits num den e).1 / (inUnits num den e).2 : ℚ) = num / den / 2 ^ e := by
  cases e with
  | ofNat k =>
    show (num : ℚ) / (den * 2 ^ k : Nat) = num / den / 2 ^ (k : ℤ)
    rw [zpow_natCast, div_div]
    push_cast
    rfl
  | negSucc k =>
    show ((num * 2 ^ (k + 1) : Nat) : ℚ) / den = num / den / 2 ^ (Int.negSucc k)
    rw [zpow_negSucc, div_inv_eq_mul]
    push_cast
    ring

/-- Binary logarithms tell the size of a quotient within a factor of two on either side. -/
theorem log2_bounds {num den : Nat} (hnum : 0 < num) (hden : 0 < den) :
    (2 : ℚ) ^ ((Nat.log2 num : ℤ) - Nat.log2 den - 1) < num / den ∧
      (num / den : ℚ) < 2 ^ ((Nat.log2 num : ℤ) - Nat.log2 den + 1) := by
  have hpos : (0 : ℚ) < den := by exact_mod_cast hden
  have hnum₁ : (2 : ℚ) ^ Nat.log2 num ≤ num := by exact_mod_cast Nat.log2_self_le hnum.ne'
  have hnum₂ : (num : ℚ) < 2 ^ (Nat.log2 num + 1) := by exact_mod_cast Nat.lt_log2_self
  have hden₁ : (2 : ℚ) ^ Nat.log2 den ≤ den := by exact_mod_cast Nat.log2_self_le hden.ne'
  have hden₂ : (den : ℚ) < 2 ^ (Nat.log2 den + 1) := by exact_mod_cast Nat.lt_log2_self
  constructor
  · calc (2 : ℚ) ^ ((Nat.log2 num : ℤ) - Nat.log2 den - 1)
        = 2 ^ Nat.log2 num / 2 ^ (Nat.log2 den + 1) := by
          rw [sub_sub, zpow_sub₀ two_ne_zero]
          norm_cast
      _ ≤ num / 2 ^ (Nat.log2 den + 1) := by gcongr
      _ < num / den := by gcongr
  · calc (num / den : ℚ) ≤ num / 2 ^ Nat.log2 den := by gcongr
      _ < 2 ^ (Nat.log2 num + 1) / 2 ^ Nat.log2 den := by gcongr
      _ = 2 ^ ((Nat.log2 num : ℤ) - Nat.log2 den + 1) := by
          rw [sub_add_eq_add_sub, zpow_sub₀ two_ne_zero]
          norm_cast

/-- Some unit gives a quotient fifty-three bits. -/
theorem exists_unitFor_eq {num den : Nat} (hnum : 0 < num) (hden : 0 < den) :
    ∃ e, unitFor num den = max lowest e ∧ (2 : ℚ) ^ 52 ≤ num / den / 2 ^ e ∧
      (num / den / 2 ^ e : ℚ) < 2 ^ 53 := by
  obtain ⟨e, he⟩ : ∃ e : Int, e = (Nat.log2 num : Int) - Nat.log2 den - 53 := ⟨_, rfl⟩
  have hfits : (inUnits num den e).1 / (inUnits num den e).2 < 2 ^ 53 ↔
      (num / den / 2 ^ e : ℚ) < 2 ^ 53 := by
    have hpos := inUnits_pos num hden e
    rw [← inUnits_div, div_lt_iff₀ (by exact_mod_cast hpos), Nat.div_lt_iff_lt_mul hpos]
    exact_mod_cast Iff.rfl
  have hunit : unitFor num den =
      max lowest (if (num / den / 2 ^ e : ℚ) < 2 ^ 53 then e else e + 1) := by
    rw [unitFor, ← he]
    simp only [← hfits]
    rfl
  obtain ⟨hge, hlt⟩ := log2_bounds hnum hden
  have hpos : (0 : ℚ) < 2 ^ e := by positivity
  have hge' : (2 : ℚ) ^ 52 < num / den / 2 ^ e := by
    rw [lt_div_iff₀ hpos, ← zpow_natCast, ← zpow_add₀ two_ne_zero]
    rwa [he, show ((52 : Nat) : ℤ) + (Nat.log2 num - Nat.log2 den - 53) =
      Nat.log2 num - Nat.log2 den - 1 by push_cast; ring]
  have hlt' : (num / den / 2 ^ e : ℚ) < 2 ^ 54 := by
    rw [div_lt_iff₀ hpos, ← zpow_natCast, ← zpow_add₀ two_ne_zero]
    rwa [he, show ((54 : Nat) : ℤ) + (Nat.log2 num - Nat.log2 den - 53) =
      Nat.log2 num - Nat.log2 den + 1 by push_cast; ring]
  refine ⟨_, hunit, ?_⟩
  split_ifs with h
  · exact ⟨hge'.le, h⟩
  · rw [zpow_add_one₀ two_ne_zero, ← div_div]
    constructor <;> linarith

theorem unitFor_bounds {num den : Nat} (hnum : 0 < num) (hden : 0 < den) :
    lowest ≤ unitFor num den ∧ (num / den / 2 ^ unitFor num den : ℚ) < 2 ^ 53 ∧
      (unitFor num den = lowest ∨ (2 : ℚ) ^ 52 ≤ num / den / 2 ^ unitFor num den) := by
  obtain ⟨e, he, hge, hlt⟩ := exists_unitFor_eq hnum hden
  rw [he]
  rcases le_total lowest e with h | h
  · rw [max_eq_right h]
    exact ⟨h, hlt, .inr hge⟩
  · rw [max_eq_left h]
    refine ⟨le_rfl, lt_of_le_of_lt ?_ hlt, .inl rfl⟩
    gcongr
    norm_num

/-- Nothing is nearer to what lies above infinity than infinity. -/
theorem isNearest_of_huge {q : ℚ} (hhuge : value infinityBits ≤ q) : IsNearest q infinityBits := by
  have hdist : ∀ b < infinityBits, |q - value infinityBits| < |q - value b| := by
    intro b hb
    have hlt := value_strictMono hb
    rw [abs_of_nonneg (sub_nonneg.2 hhuge), abs_of_pos (by linarith)]
    linarith
  refine ⟨le_rfl, fun b hb => ?_, fun b hb hne htie => ?_⟩
  · rcases hb.lt_or_eq with hb | rfl
    · exact (hdist b hb).le
    · exact le_rfl
  · exact absurd htie (hdist b (lt_of_le_of_ne hb hne)).ne'

theorem isNearest_min {q : ℚ} {bits : Nat} (h : ∀ b, b ≠ bits →
    |q - value bits| ≤ |q - value b| ∧ (|q - value b| = |q - value bits| → Even bits)) :
    IsNearest q (min infinityBits bits) := by
  by_cases hle : bits ≤ infinityBits
  · rw [min_eq_right hle]
    refine ⟨hle, fun b _ => ?_, fun b _ hb => (h b hb).2⟩
    by_cases hb : b = bits
    · rw [hb]
    · exact (h b hb).1
  · rw [not_le] at hle
    rw [min_eq_left hle.le]
    apply isNearest_of_huge
    have hclosest := (h infinityBits hle.ne).1
    have hlt := value_strictMono hle
    grind

theorem isNearest_zero : IsNearest 0 0 where
  le := Nat.zero_le _
  closest b _ := by
    rw [value_zero, sub_self, abs_zero]
    exact abs_nonneg _
  even _ _ _ _ := Even.zero

theorem nearestBits_eq {num den : Nat} (hnum : num ≠ 0) {k : Nat}
    (hk : unitFor num den = lowest + k) :
    nearestBits num den = min infinityBits (k * 2 ^ 52 + roundHalfEven
      (inUnits num den (lowest + k)).1 (inUnits num den (lowest + k)).2) := by
  rw [nearestBits, if_neg hnum, hk]
  show min infinityBits ((lowest + k - lowest).toNat * 2 ^ 52 + _) = _
  rw [add_sub_cancel_left, Int.toNat_natCast]
  rfl

/-- Quotients are rounded to the nearest double. -/
theorem isNearest_nearestBits (num : Nat) {den : Nat} (hden : 0 < den) :
    IsNearest (num / den) (nearestBits num den) := by
  by_cases hnum : num = 0
  · rw [hnum, nearestBits, if_pos rfl, Nat.cast_zero, zero_div]
    exact isNearest_zero
  · obtain ⟨hlow, hlt, hleast⟩ := unitFor_bounds (Nat.pos_of_ne_zero hnum) hden
    obtain ⟨k, hk⟩ := Int.le.dest hlow
    have hunit : (2 : ℚ) ^ (lowest + k) ≠ 0 := by positivity
    rw [← hk] at hlt hleast
    have hrounded := isRounded_roundHalfEven (inUnits num den (lowest + k)).1
      (inUnits_pos num hden (lowest + k))
    rw [inUnits_div] at hrounded
    rw [nearestBits_eq hnum hk.symm, ← div_mul_cancel₀ (num / den : ℚ) hunit]
    refine isNearest_min fun b hb => closest_on_grid hrounded hlt (hleast.imp_left ?_) hb
    omega

/-- There is one nearest magnitude. -/
theorem IsNearest.unique {q : ℚ} {b c : Nat} (hb : IsNearest q b) (hc : IsNearest q c) : b = c := by
  wlog hlt : b < c generalizing b c
  · rcases Nat.lt_trichotomy b c with h | h | h
    · exact absurd h hlt
    · exact h
    · exact (this hc hb h).symm
  exfalso
  have hdist : |q - value b| = |q - value c| :=
    le_antisymm (hb.closest c hc.le) (hc.closest b hb.le)
  have hbeven := hb.even c hc.le hlt.ne' hdist.symm
  have hceven := hc.even b hb.le hlt.ne hdist
  -- Two even neighbours of a number have a third one between them, which is nearer.
  have hnext : b + 1 < c := by grind
  have hclosest := hb.closest (b + 1) (hnext.le.trans hc.le)
  have h₁ := value_strictMono (Nat.lt_succ_self b)
  have h₂ := value_strictMono hnext
  grind

/-! ### Doubles, and what lies beyond them -/

/-- A double is the nearest one to its own value. -/
theorem isNearest_value {bits : Nat} (hbits : bits ≤ infinityBits) :
    IsNearest (value bits) bits where
  le := hbits
  closest b _ := by
    rw [sub_self, abs_zero]
    exact abs_nonneg _
  even b _ hne htie := by
    rw [sub_self, abs_zero, abs_eq_zero, sub_eq_zero] at htie
    exact absurd (value_strictMono.injective htie).symm hne

theorem value_one : value 1 = 2 ^ lowest := by
  simpa using value_parts (k := 0) (r := 1) (by norm_num) (.inl rfl)

theorem value_infinityBits : value infinityBits = 2 ^ (1024 : ℤ) := by
  have hparts : infinityBits = 2046 * 2 ^ 52 + 2 ^ 52 := rfl
  rw [hparts, value_parts (by norm_num) (.inr le_rfl), Nat.cast_pow, Nat.cast_ofNat,
    ← zpow_natCast, ← zpow_add₀ two_ne_zero]
  rfl

theorem isNearest_of_tiny {q : ℚ} (hq : 0 ≤ q) (htiny : q < 2 ^ (lowest - 1)) : IsNearest q 0 := by
  have hdist : ∀ b, b ≠ 0 → |q - value 0| < |q - value b| := by
    intro b hb
    have hle : value 1 ≤ value b := value_strictMono.monotone (Nat.one_le_iff_ne_zero.2 hb)
    have hhalf : (2 : ℚ) ^ lowest = 2 ^ (lowest - 1) * 2 := by
      rw [← zpow_add_one₀ two_ne_zero, sub_add_cancel]
    rw [value_one, hhalf] at hle
    rw [value_zero, sub_zero, abs_of_nonneg hq, abs_sub_comm, abs_of_pos (by linarith)]
    linarith
  refine ⟨Nat.zero_le _, fun b _ => ?_, fun b _ hb htie => absurd htie (hdist b hb).ne'⟩
  by_cases hb : b = 0
  · rw [hb]
  · exact (hdist b hb).le

end Lisplet.Binary

namespace Lisplet.Decimal

open Binary (IsNearest)

/-- The value of a decimal. -/
def value (d : Decimal) : ℚ := d.digits * 10 ^ d.exponent

theorem value_nonneg (d : Decimal) : 0 ≤ d.value := by
  rw [value]
  positivity

theorem quotient_pos (d : Decimal) : 0 < d.quotient.2 := by
  rw [quotient]
  split
  · exact Nat.one_pos
  · exact Nat.pow_pos (by norm_num)

theorem quotient_div (d : Decimal) : (d.quotient.1 / d.quotient.2 : ℚ) = d.value := by
  obtain ⟨digits, exponent⟩ := d
  rw [value]
  cases exponent with
  | ofNat k =>
    show ((digits * 10 ^ k : Nat) : ℚ) / (1 : Nat) = digits * 10 ^ (k : ℤ)
    rw [zpow_natCast]
    push_cast
    rw [div_one]
  | negSucc k =>
    show (digits : ℚ) / (10 ^ (k + 1) : Nat) = digits * 10 ^ Int.negSucc k
    rw [zpow_negSucc, ← div_eq_mul_inv]
    push_cast
    rfl

theorem two_zpow_le_ten_zpow {e : ℤ} (he : 0 ≤ e) : (2 : ℚ) ^ (3 * e) ≤ 10 ^ e := by
  lift e to Nat using he
  rw [zpow_mul, zpow_natCast, zpow_natCast]
  exact pow_le_pow_left₀ (by positivity) (by norm_num) e

theorem ten_zpow_le_two_zpow {e : ℤ} (he : e ≤ 0) : (10 : ℚ) ^ e ≤ 2 ^ (3 * e) := by
  have h := two_zpow_le_ten_zpow (neg_nonneg.2 he)
  rw [mul_neg, zpow_neg, zpow_neg] at h
  exact (inv_le_inv₀ (by positivity) (by positivity)).1 h

/-- Decimals are rounded to the nearest double, also those whose power of ten is not computed. -/
theorem isNearest_nearestBits (d : Decimal) : IsNearest d.value d.nearestBits := by
  rw [nearestBits]
  split_ifs with hzero hhuge htiny
  · rw [value, hzero, Nat.cast_zero, zero_mul]
    exact Binary.isNearest_zero
  · refine Binary.isNearest_of_huge (Binary.value_infinityBits ▸ ?_)
    have hone : (1 : ℚ) ≤ d.digits := by exact_mod_cast Nat.one_le_iff_ne_zero.2 hzero
    calc (2 : ℚ) ^ (1024 : ℤ) ≤ 2 ^ (3 * d.exponent) := zpow_le_zpow_right₀ one_le_two (by omega)
      _ ≤ 10 ^ d.exponent := two_zpow_le_ten_zpow (by omega)
      _ ≤ d.value := le_mul_of_one_le_left (by positivity) hone
  · refine Binary.isNearest_of_tiny d.value_nonneg ?_
    have hlog : (d.digits : ℚ) < 2 ^ (Nat.log2 d.digits + 1) := by exact_mod_cast Nat.lt_log2_self
    calc d.value < 2 ^ (Nat.log2 d.digits + 1) * 10 ^ d.exponent := by rw [value]; gcongr
      _ ≤ 2 ^ (Nat.log2 d.digits + 1) * 2 ^ (3 * d.exponent) := by
        gcongr
        exact ten_zpow_le_two_zpow (by omega)
      _ = 2 ^ ((Nat.log2 d.digits + 1 : Nat) + 3 * d.exponent : ℤ) := by
        rw [← zpow_natCast, ← zpow_add₀ two_ne_zero]
      _ ≤ 2 ^ (Binary.lowest - 1) :=
        zpow_le_zpow_right₀ one_le_two (by rw [Binary.lowest]; push_cast; omega)
  · rw [← quotient_div]
    exact Binary.isNearest_nearestBits _ d.quotient_pos

/-- Decimals of one value are rounded alike. -/
theorem nearestBits_congr {d d' : Decimal} (h : d.value = d'.value) :
    d.nearestBits = d'.nearestBits :=
  d.isNearest_nearestBits.unique (h ▸ d'.isNearest_nearestBits)

theorem nearestBits_of_large {d : Decimal} (hdigits : d.digits ≠ 0) (hlarge : 400 < d.exponent) :
    d.nearestBits = Binary.infinityBits := by
  rw [nearestBits, if_neg hdigits, if_pos hlarge]

theorem nearestBits_of_small {d : Decimal} {k : Nat} (hdigits : d.digits < 10 ^ k)
    (hsmall : d.exponent + k ≤ -400) : d.nearestBits = 0 := by
  refine d.isNearest_nearestBits.unique (Binary.isNearest_of_tiny d.value_nonneg ?_)
  have hlt : (d.digits : ℚ) < 10 ^ k := by exact_mod_cast hdigits
  calc d.value < 10 ^ k * 10 ^ d.exponent := by rw [value]; gcongr
    _ = 10 ^ (d.exponent + k) := by
      rw [zpow_add₀ (by norm_num), zpow_natCast, mul_comm]
    _ ≤ 2 ^ (3 * (d.exponent + k)) := ten_zpow_le_two_zpow (by omega)
    _ ≤ 2 ^ (Binary.lowest - 1) := zpow_le_zpow_right₀ one_le_two (by rw [Binary.lowest]; omega)

theorem value_stripZeros (fuel : Nat) (d : Decimal) : (stripZeros fuel d).value = d.value := by
  induction fuel generalizing d with
  | zero => rfl
  | succ fuel ih =>
    rw [stripZeros]
    split
    · rename_i hzero
      have hdigits : (d.digits : ℚ) = (d.digits / 10 : Nat) * 10 := by
        exact_mod_cast (Nat.div_mul_cancel (Nat.dvd_of_mod_eq_zero hzero)).symm
      rw [ih]
      show ((d.digits / 10 : Nat) : ℚ) * 10 ^ (d.exponent + 1) = d.digits * 10 ^ d.exponent
      rw [hdigits, zpow_add_one₀ (by norm_num)]
      ring
    · rfl

theorem value_normalize (d : Decimal) : d.normalize.value = d.value := by
  rw [normalize]
  split
  · rename_i hzero
    simp [value, hzero]
  · exact value_stripZeros _ d

end Lisplet.Decimal
