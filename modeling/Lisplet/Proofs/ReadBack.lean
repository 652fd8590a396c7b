import Lisplet.Number.Layout
import Lisplet.Proofs.PlainDecimal

/-!
# Numbers that are read back

The text of a number is made of the digits of its shortest decimal, in one of two layouts, and the
exponent of the second one is cut down to the digits that it needs. A text is read as a number by
the rules for plain decimals, among others. The one undoes the other.

* `Decimal.nearestBits_shortest`, `Decimal.natAbs_place_lt`: what is known of the shortest decimal;
* `Decimal.exists_positional`, `Decimal.exists_scientific`: both layouts are plain decimals, which
  have the value of what was laid out;
* `Decimal.dropExponentZeros_scientific`: what is left of an exponent;
* `numbers_read_back`: a number is what its text is read as.
-/

namespace Lisplet

open Numeral

namespace Decimal

/-! ### Digits -/

theorem toDigits_ne_nil {n : Nat} (hn : n ≠ 0) : toDigits n ≠ [] := by
  rw [toDigits, if_neg hn]
  exact List.concat_ne_nil _ _

theorem isDigit_digit (n : Nat) : (Char.ofNat (0x30 + n % 10)).isDigit = true := by
  have hlt := Nat.mod_lt n (by decide : 10 > 0)
  interval_cases n % 10 <;> rfl

theorem digitValue_digit (n : Nat) : digitValue (Char.ofNat (0x30 + n % 10)) = n % 10 := by
  have hlt := Nat.mod_lt n (by decide : 10 > 0)
  interval_cases n % 10 <;> rfl

theorem isDigits_toDigits (n : Nat) : IsDigits (toDigits n) := by
  fun_induction toDigits n with
  | case1 => exact isDigits_nil
  | case2 n _ ih =>
    exact List.forall_mem_append.2 ⟨ih, List.forall_mem_singleton.2 (isDigit_digit n)⟩

theorem ofDigits_toDigits (n : Nat) : ofDigits (toDigits n) = n := by
  fun_induction toDigits n with
  | case1 => rfl
  | case2 n _ ih =>
    rw [ofDigits_concat, ih, digitValue_digit]
    omega

/-- The first digit of a number is not zero. -/
theorem head?_toDigits (n : Nat) : (toDigits n).head? ≠ some '0' := by
  fun_induction toDigits n with
  | case1 => simp
  | case2 n hn ih =>
    by_cases hsmall : n / 10 = 0
    · have hlt : n < 10 := by omega
      rw [hsmall, toDigits, if_pos rfl, List.nil_append, List.head?_cons]
      intro hzero
      have hvalue := digitValue_digit n
      rw [Option.some.inj hzero, Nat.mod_eq_of_lt hlt] at hvalue
      exact hn hvalue.symm
    · rwa [List.head?_append_of_ne_nil _ (toDigits_ne_nil hsmall)]

theorem length_toDigits {n : Nat} (hn : n ≠ 0) : 10 ^ (toDigits n).length ≤ 10 * n := by
  fun_induction toDigits n with
  | case1 => exact absurd rfl hn
  | case2 n _ ih =>
    rw [List.length_append, List.length_singleton, pow_succ]
    by_cases hsmall : n / 10 = 0
    · rw [hsmall, toDigits, if_pos rfl, List.length_nil, pow_zero]
      omega
    · have hle := ih hsmall
      omega

theorem ofDigits_append (ds es : List Char) :
    ofDigits (ds ++ es) = ofDigits ds * 10 ^ es.length + ofDigits es := by
  induction es using List.reverseRecOn with
  | nil => simp [ofDigits]
  | append_singleton es c ih =>
    rw [← List.append_assoc, ofDigits_concat, ih, ofDigits_concat, List.length_append,
      List.length_singleton, pow_succ]
    ring

@[simp] theorem ofDigits_zeros (k : Nat) : ofDigits (zeros k) = 0 := by
  induction k with
  | zero => rfl
  | succ k ih =>
    rw [zeros, List.replicate_succ', ofDigits_concat, ← zeros, ih]
    rfl

theorem isDigits_zeros (k : Nat) : IsDigits (zeros k) := by
  intro c hc
  rw [List.eq_of_mem_replicate hc]
  rfl

@[simp] theorem length_zeros (k : Nat) : (zeros k).length = k := List.length_replicate

/-! ### The place of the leading digit -/

theorem value_lt (d : Decimal) : d.value < 10 ^ (d.place + 1) := by
  have hlt := ofDigits_lt (isDigits_toDigits d.digits)
  rw [ofDigits_toDigits] at hlt
  have hlt' : (d.digits : ℚ) < 10 ^ (toDigits d.digits).length := by exact_mod_cast hlt
  calc d.value < 10 ^ (toDigits d.digits).length * 10 ^ d.exponent := by rw [value]; gcongr
    _ = 10 ^ (d.place + 1) := by
      rw [← zpow_natCast, ← zpow_add₀ (by norm_num), place, sub_add_cancel]

theorem le_value {d : Decimal} (hd : d.digits ≠ 0) : 10 ^ d.place ≤ d.value := by
  have hle : (10 : ℚ) ^ (toDigits d.digits).length ≤ 10 * d.digits := by
    exact_mod_cast length_toDigits hd
  have hplace : (10 : ℚ) ^ d.place =
      10 ^ (toDigits d.digits).length * 10 ^ d.exponent / 10 := by
    rw [place, zpow_sub_one₀ (by norm_num), zpow_add₀ (by norm_num), zpow_natCast, div_eq_mul_inv]
  have hpos : (0 : ℚ) < 10 ^ d.exponent := by positivity
  rw [hplace, value, div_le_iff₀ (by norm_num)]
  nlinarith

/-- The leading digit of a decimal that is rounded to a finite double other than zero. -/
theorem natAbs_place_lt {d : Decimal} (hzero : d.nearestBits ≠ 0)
    (hfinite : d.nearestBits ≠ Binary.infinityBits) : d.place.natAbs < 400 := by
  have hd : d.digits ≠ 0 := fun h => hzero (by rw [nearestBits, if_pos h])
  by_contra hplace
  rcases Int.le_total 0 d.place with hsign | hsign
  · refine hfinite (d.isNearest_nearestBits.unique (Binary.isNearest_of_huge ?_))
    calc Binary.value Binary.infinityBits = 2 ^ (1024 : ℤ) := Binary.value_infinityBits
      _ ≤ 2 ^ (3 * d.place) := zpow_le_zpow_right₀ one_le_two (by omega)
      _ ≤ 10 ^ d.place := two_zpow_le_ten_zpow hsign
      _ ≤ d.value := le_value hd
  · refine hzero (d.isNearest_nearestBits.unique (Binary.isNearest_of_tiny d.value_nonneg ?_))
    calc d.value < 10 ^ (d.place + 1) := d.value_lt
      _ ≤ 2 ^ (3 * (d.place + 1)) := ten_zpow_le_two_zpow (by omega)
      _ ≤ 2 ^ (Binary.lowest - 1) :=
        zpow_le_zpow_right₀ one_le_two (by rw [Binary.lowest]; omega)

/-! ### The shortest decimal -/

theorem nearestBits_neighbour? {bits num den : Nat} {place : Int} {d : Decimal}
    (h : neighbour? bits num den place = some d) : d.nearestBits = bits := by
  simp only [neighbour?] at h
  split at h
  · rename_i hbelow habove
    obtain rfl := Option.some.inj h
    split
    · exact eq_of_beq hbelow
    · exact eq_of_beq habove
  · rename_i hbelow _
    exact Option.some.inj h ▸ eq_of_beq hbelow
  · rename_i _ habove
    exact Option.some.inj h ▸ eq_of_beq habove
  · cases h

theorem nearestBits_search {bits num den fuel : Nat} {place : Int} {d : Decimal}
    (h : search bits num den fuel place = some d) : d.nearestBits = bits := by
  induction fuel generalizing place with
  | zero => cases h
  | succ fuel ih =>
    rw [search] at h
    split at h
    · rename_i hneighbour
      exact nearestBits_neighbour? (hneighbour.trans h)
    · exact ih h

theorem value_exact (bits : Nat) : (exact bits).value = Binary.value bits := by
  rw [exact, Binary.value]
  cases Binary.unit bits with
  | ofNat k =>
    show ((Binary.significand bits * 2 ^ k : Nat) : ℚ) * 10 ^ (0 : ℤ) =
      Binary.significand bits * 2 ^ (k : ℤ)
    rw [zpow_zero, mul_one, zpow_natCast, Nat.cast_mul, Nat.cast_pow, Nat.cast_ofNat]
  | negSucc k =>
    show ((Binary.significand bits * 5 ^ (k + 1) : Nat) : ℚ) * 10 ^ Int.negSucc k =
      Binary.significand bits * 2 ^ Int.negSucc k
    have hten : (10 : ℚ) ^ (k + 1) = 5 ^ (k + 1) * 2 ^ (k + 1) := by
      rw [← mul_pow]
      norm_num
    rw [zpow_negSucc, zpow_negSucc, hten, Nat.cast_mul, Nat.cast_pow, Nat.cast_ofNat]
    field_simp

/-- The shortest decimal reads back, also where the search does not end. -/
theorem nearestBits_shortest {bits : Nat} (hbits : bits ≤ Binary.infinityBits) :
    (shortest bits).nearestBits = bits := by
  rw [shortest, nearestBits_congr (value_normalize _)]
  cases hsearch : search bits (Binary.quotient bits).1 (Binary.quotient bits).2 17
      (leadingPlace (Binary.quotient bits).1 (Binary.quotient bits).2) with
  | some d => exact nearestBits_search hsearch
  | none =>
    refine (isNearest_nearestBits _).unique ?_
    rw [Option.getD_none, value_exact]
    exact Binary.isNearest_value hbits

/-! ### Layouts as they are read -/

theorem isDigits_take_drop {ds : List Char} (hds : IsDigits ds) (n : Nat) :
    IsDigits (ds.take n) ∧ IsDigits (ds.drop n) :=
  ⟨fun c hc => hds c (List.mem_of_mem_take hc), fun c hc => hds c (List.mem_of_mem_drop hc)⟩

/-- A decimal with all its places is a plain decimal without a power. -/
theorem exists_positional {d : Decimal} (hd : d.digits ≠ 0) (sign : Sign) :
    ∃ w : PlainDecimal, w.text = sign.text ++ d.positional ∧ w.sign = sign ∧ w.power = none ∧
      (w.scaled 0).value = d.value := by
  obtain ⟨n, e⟩ := d
  have hdigits := isDigits_toDigits n
  have hne := toDigits_ne_nil hd
  cases e with
  | ofNat k =>
    refine ⟨⟨sign, toDigits n ++ zeros k, none, none,
      List.forall_mem_append.2 ⟨hdigits, isDigits_zeros k⟩, isDigits_nil, by simp [hne]⟩,
      ?_, rfl, rfl, ?_⟩
    · simp [PlainDecimal.text, PlainDecimal.mantissaText, PlainDecimal.powerText, positional]
    · simp [value, PlainDecimal.scaled, PlainDecimal.digits, ofDigits_append, ofDigits_toDigits]
  | negSucc k =>
    by_cases hwhole : 0 < (toDigits n).length - (k + 1)
    · refine ⟨⟨sign, (toDigits n).take ((toDigits n).length - (k + 1)),
        some ((toDigits n).drop ((toDigits n).length - (k + 1))), none,
        (isDigits_take_drop hdigits _).1, (isDigits_take_drop hdigits _).2, ?_⟩, ?_, rfl, rfl, ?_⟩
      · rwa [Option.getD_some, List.take_append_drop]
      · simp [PlainDecimal.text, PlainDecimal.mantissaText, PlainDecimal.powerText, positional,
          hwhole]
      · refine congrArg value ((Decimal.mk.injEq ..).mpr ⟨?_, ?_⟩)
        · show ofDigits ((toDigits n).take _ ++ (toDigits n).drop _) = n
          rw [List.take_append_drop, ofDigits_toDigits]
        · rw [Option.getD_some, List.length_drop]
          omega
    · refine ⟨⟨sign, ['0'], some (zeros (k + 1 - (toDigits n).length) ++ toDigits n), none,
        ?_, List.forall_mem_append.2 ⟨isDigits_zeros _, hdigits⟩, by simp⟩, ?_, rfl, rfl, ?_⟩
      · simp [IsDigits]
      · simp [PlainDecimal.text, PlainDecimal.mantissaText, PlainDecimal.powerText, positional,
          hwhole]
      · refine congrArg value ((Decimal.mk.injEq ..).mpr ⟨?_, ?_⟩)
        · rw [PlainDecimal.digits, Option.getD_some, ofDigits_append, ofDigits_append,
            ofDigits_toDigits, ofDigits_zeros]
          show 0 * _ + (0 * _ + n) = n
          omega
        · rw [Option.getD_some, List.length_append, length_zeros]
          omega

/-- The digits with a point and a power after them are a plain decimal. -/
theorem exists_scientific {d : Decimal} (hd : d.digits ≠ 0) (sign : Sign) (p : PlainPower) :
    ∃ w : PlainDecimal, w.text = sign.text ++ (d.pointed ++ p.text) ∧ w.sign = sign ∧
      w.power = some p ∧ ∀ e, w.scaled e = ⟨d.digits, d.exponent + (e - d.place)⟩ := by
  have hdigits := isDigits_toDigits d.digits
  have hvalue := ofDigits_toDigits d.digits
  obtain ⟨c, rest, hrest⟩ := List.exists_cons_of_ne_nil (toDigits_ne_nil hd)
  rw [hrest] at hdigits hvalue
  obtain ⟨hc, hdigits⟩ := List.forall_mem_cons.1 hdigits
  have hfirst : IsDigits [c] := List.forall_mem_singleton.2 hc
  have hplace : d.place = rest.length + d.exponent := by
    rw [place, hrest, List.length_cons]
    omega
  cases rest with
  | nil =>
    refine ⟨⟨sign, [c], none, some p, hfirst, isDigits_nil, by simp⟩, ?_, rfl, rfl, fun e => ?_⟩
    · simp [PlainDecimal.text, PlainDecimal.mantissaText, PlainDecimal.powerText, pointed, hrest]
    · refine (Decimal.mk.injEq ..).mpr ⟨hvalue, ?_⟩
      rw [hplace]
      simp
  | cons c' rest =>
    refine ⟨⟨sign, [c], some (c' :: rest), some p, hfirst, hdigits, by simp⟩, ?_, rfl, rfl,
      fun e => ?_⟩
    · simp [PlainDecimal.text, PlainDecimal.mantissaText, PlainDecimal.powerText, pointed, hrest]
    · refine (Decimal.mk.injEq ..).mpr ⟨hvalue, ?_⟩
      rw [hplace, Option.getD_some]
      omega

/-- The sign of an exponent, which is never left out. -/
def exponentSign (e : Int) : Sign := if e < 0 then .minus else .plus

theorem exponentSign_apply (e : Int) : (exponentSign e).apply e.natAbs = e := by
  by_cases he : e < 0
  · rw [exponentSign, if_pos he, Sign.apply, if_pos rfl]
    omega
  · rw [exponentSign, if_neg he, Sign.apply, if_neg (by decide)]
    omega

/-- A power of ten with two digits at least. -/
def paddedPower (e : Int) : PlainPower where
  mark := 'e'
  sign := exponentSign e
  digits := zeros (2 - (toDigits e.natAbs).length) ++ toDigits e.natAbs
  mark_eq := .inl rfl
  digits_ne_nil := by
    rw [← List.length_pos_iff, List.length_append, length_zeros]
    omega
  isDigits_digits := List.forall_mem_append.2 ⟨isDigits_zeros _, isDigits_toDigits _⟩

/-- A power of ten with the digits that it needs. -/
def barePower (e : Int) : PlainPower where
  mark := 'e'
  sign := exponentSign e
  digits := if (toDigits e.natAbs).isEmpty then ['0'] else toDigits e.natAbs
  mark_eq := .inl rfl
  digits_ne_nil := by
    split
    · simp
    · rename_i h
      simpa using h
  isDigits_digits := by
    split
    · simp [IsDigits]
    · exact isDigits_toDigits _

theorem exponentText_eq (e : Int) : 'e' :: exponentText e = (paddedPower e).text := by
  by_cases he : e < 0 <;>
    simp [exponentText, PlainPower.text, paddedPower, exponentSign, he, Sign.text]

theorem scientific_eq (d : Decimal) : d.scientific = d.pointed ++ (paddedPower d.place).text := by
  rw [scientific, exponentText_eq]

theorem not_mem_pointed (d : Decimal) : 'e' ∉ d.pointed := by
  have hdigits := isDigits_toDigits d.digits
  have hmark : 'e'.isDigit = false := by decide
  intro hmem
  rw [pointed] at hmem
  split at hmem <;> grind [IsDigits]

theorem dropWhile_zeros (k n : Nat) :
    (zeros k ++ toDigits n).dropWhile (· = '0') = toDigits n := by
  induction k with
  | zero =>
    have hhead := head?_toDigits n
    cases htext : toDigits n with
    | nil => rfl
    | cons c cs => exact List.dropWhile_cons_of_neg (by simpa [htext] using hhead)
  | succ k ih =>
    rw [zeros, List.replicate_succ, List.cons_append, ← zeros,
      List.dropWhile_cons_of_pos (by simp), ih]

/-- Cutting the exponent leaves the power with the digits that it needs. -/
theorem dropExponentZeros_scientific (d : Decimal) :
    dropExponentZeros d.scientific = d.pointed ++ (barePower d.place).text := by
  have hbefore : ∀ c ∈ d.pointed, (decide (c ≠ 'e')) = true := by
    intro c hc
    exact decide_eq_true fun h => d.not_mem_pointed (h ▸ hc)
  have htake : d.scientific.takeWhile (· ≠ 'e') = d.pointed := by
    rw [scientific, List.takeWhile_append_of_pos hbefore]
    simp
  have hdrop : d.scientific.dropWhile (· ≠ 'e') = 'e' :: exponentText d.place := by
    rw [scientific, List.dropWhile_append_of_pos hbefore]
    simp
  rw [dropExponentZeros, htake, hdrop, exponentText]
  simp only [dropWhile_zeros]
  by_cases he : d.place < 0 <;>
    simp [PlainPower.text, barePower, exponentSign, he, Sign.text]

theorem ofDigits_padded (e : Int) : ofDigits (paddedPower e).digits = e.natAbs := by
  rw [paddedPower, ofDigits_append, ofDigits_zeros, zero_mul, zero_add, ofDigits_toDigits]

theorem exponentValue_zeros (k : Nat) (ds : List Char) :
    exponentValue (zeros k ++ ds) = exponentValue ds := by
  induction k with
  | zero => rfl
  | succ k ih => exact ih

theorem digits_barePower (e : Int) :
    (barePower e).digits = ['0'] ∧ toDigits e.natAbs = [] ∨
      (barePower e).digits = toDigits e.natAbs := by
  rw [barePower]
  split
  · rename_i h
    exact .inl ⟨rfl, List.isEmpty_iff.1 h⟩
  · exact .inr rfl

/-- Leading zeros do not change what is read. -/
theorem exponentValue_padded (e : Int) :
    exponentValue (paddedPower e).digits = exponentValue (barePower e).digits := by
  rw [paddedPower, exponentValue_zeros]
  rcases digits_barePower e with ⟨hzero, hnil⟩ | h
  · rw [hzero, hnil]
    rfl
  · rw [h]

theorem ofDigits_bare (e : Int) : ofDigits (barePower e).digits = e.natAbs := by
  rcases digits_barePower e with ⟨hzero, hnil⟩ | h
  · rw [hzero, ← ofDigits_toDigits e.natAbs, hnil]
    rfl
  · rw [h, ofDigits_toDigits]

theorem parse?_scientific {d : Decimal} (hd : d.digits ≠ 0) (sign : Sign) (p : PlainPower) :
    parse? (String.ofList (sign.text ++ (d.pointed ++ p.text))) =
      some (.decimal (sign = .minus)
        ⟨d.digits, d.exponent + (p.sign.apply (exponentValue p.digits) - d.place)⟩) := by
  obtain ⟨w, htext, hsign, hpower, hscaled⟩ := exists_scientific hd sign p
  rw [← htext, w.parse?_text, hsign, hscaled, PlainDecimal.readExponent, hpower]
  rfl

/-- The text of a decimal is a plain decimal of the same value, whichever layout it has. -/
theorem exists_text {d : Decimal} (hd : d.digits ≠ 0) (sign : Sign) :
    ∃ w : PlainDecimal, w.text = sign.text ++ d.text ∧ w.sign = sign ∧
      (w.scaled w.exponent).value = d.value ∧ w.exponent.natAbs ≤ d.place.natAbs := by
  rw [text]
  split
  · obtain ⟨w, htext, hsign, hpower, hvalue⟩ := exists_positional hd sign
    have hexponent : w.exponent = 0 := by rw [PlainDecimal.exponent, hpower]; rfl
    exact ⟨w, htext, hsign, by rw [hexponent, hvalue], by simp [hexponent]⟩
  · obtain ⟨w, htext, hsign, hpower, hscaled⟩ := exists_scientific hd sign (barePower d.place)
    have hexponent : w.exponent = d.place := by
      rw [PlainDecimal.exponent, hpower, Option.map_some, Option.getD_some, ofDigits_bare]
      exact exponentSign_apply d.place
    refine ⟨w, ?_, hsign, ?_, by rw [hexponent]⟩
    · rw [htext, dropExponentZeros_scientific]
    · rw [hexponent, hscaled, sub_self, add_zero]

end Decimal

/-! ### Doubles and their texts -/

namespace Binary

theorem ofMagnitude_magnitude (x : Float) : ofMagnitude (isNegative x) (magnitude x) = x := by
  have hlt : x.toBits.toNat < 2 ^ 64 := x.toBits.toNat_lt
  have hbits : (if isNegative x = true then twoPow 63 + magnitude x else magnitude x) =
      x.toBits.toNat := by
    rw [isNegative, magnitude]
    show (if decide (2 ^ 63 ≤ x.toBits.toNat) = true then 2 ^ 63 + x.toBits.toNat % 2 ^ 63
      else x.toBits.toNat % 2 ^ 63) = x.toBits.toNat
    split <;> simp_all
    omega
  rw [ofMagnitude, hbits, UInt64.ofNat_toNat, Float.ofBits_toBits]

theorem isNaN_iff (x : Float) : x.isNaN = true ↔ infinityBits < magnitude x := by
  rw [magnitude, ← isNaN_ofBits, Float.ofBits_toBits]

theorem magnitude_eq_zero_iff {x : Float} : magnitude x = 0 ↔ x = 0 ∨ x = -0 := by
  constructor
  · intro hx
    have hparts := ofMagnitude_magnitude x
    rw [hx] at hparts
    cases hsign : isNegative x with
    | false =>
      rw [hsign] at hparts
      exact .inl (hparts.symm.trans (by decide))
    | true =>
      rw [hsign] at hparts
      exact .inr (hparts.symm.trans (by decide))
  · rintro (rfl | rfl) <;> decide

end Binary

namespace Numeral

/-- The sign before the text of a number. -/
def signOf (x : Float) : Sign := if Binary.isNegative x then .minus else .absent

theorem numberText_of_nan {x : Float} (hx : x.isNaN = true) : numberText x = "NaN" := by
  rw [numberText, if_pos ((Binary.isNaN_iff x).1 hx)]

theorem toList_numberText_of_infinite {x : Float} (hx : Binary.magnitude x = Binary.infinityBits) :
    (numberText x).toList = (signOf x).text ++ "Infinity".toList := by
  rw [numberText, if_neg (by omega), if_pos hx, signOf]
  split <;> rfl

theorem toList_numberText_of_finite {x : Float} (hzero : Binary.magnitude x ≠ 0)
    (hfinite : Binary.magnitude x < Binary.infinityBits) :
    (numberText x).toList = (signOf x).text ++ (Decimal.shortest (Binary.magnitude x)).text := by
  rw [numberText, if_neg (by omega), if_neg hfinite.ne, if_neg hzero, signOf]
  split <;> exact String.toList_ofList

theorem exists_text_of_finite {x : Float} (hzero : Binary.magnitude x ≠ 0)
    (hfinite : Binary.magnitude x < Binary.infinityBits) :
    ∃ w : PlainDecimal, (numberText x).toList = w.text ∧ w.sign = signOf x ∧
      (w.scaled w.readExponent).nearestBits = Binary.magnitude x := by
  have hbits := Decimal.nearestBits_shortest hfinite.le
  have hd : (Decimal.shortest (Binary.magnitude x)).digits ≠ 0 := by
    intro h
    rw [Decimal.nearestBits, if_pos h] at hbits
    exact hzero hbits.symm
  have hplace := Decimal.natAbs_place_lt (hbits.symm ▸ hzero) (hbits.symm ▸ hfinite.ne)
  obtain ⟨w, htext, hsign, hvalue, hexponent⟩ := Decimal.exists_text hd (signOf x)
  refine ⟨w, (toList_numberText_of_finite hzero hfinite).trans htext.symm, hsign, ?_⟩
  rw [w.nearestBits_read (.inr (by omega)), Decimal.nearestBits_congr hvalue, hbits]

theorem decide_signOf (x : Float) : decide (signOf x = .minus) = Binary.isNegative x := by
  rw [signOf]
  cases Binary.isNegative x <;> rfl

theorem ofText_numberText_of_nan {x : Float} (hx : x.isNaN = true) :
    (ofText (numberText x)).isNaN = true := by
  rw [numberText_of_nan hx]
  have hnan : ofText "NaN" = nanFloat := by rfl
  rw [hnan, Binary.isNaN_nanFloat]

theorem numberText_of_zero {x : Float} (hx : Binary.magnitude x = 0) : numberText x = "0" := by
  rw [numberText, hx, if_neg (by decide), if_neg (by decide), if_pos rfl]

theorem ofText_numberText_of_zero {x : Float} (hx : Binary.magnitude x = 0) :
    ofText (numberText x) = 0 := by
  rw [numberText_of_zero hx]
  decide

theorem ofText_numberText_of_infinite {x : Float}
    (hx : Binary.magnitude x = Binary.infinityBits) : ofText (numberText x) = x := by
  have htext := toList_numberText_of_infinite hx
  have htrim : Text.trimChars ((signOf x).text ++ "Infinity".toList) =
      (signOf x).text ++ "Infinity".toList := by
    cases signOf x <;> decide
  rw [ofText_of_infinity (by rw [htext, htrim]), decide_signOf, ← hx, Binary.ofMagnitude_magnitude]

theorem ofText_numberText_of_finite {x : Float} (hzero : Binary.magnitude x ≠ 0)
    (hfinite : Binary.magnitude x < Binary.infinityBits) : ofText (numberText x) = x := by
  obtain ⟨w, htext, hsign, hbits⟩ := exists_text_of_finite hzero hfinite
  rw [PlainDecimal.ofText_of_text (w := w) (by rw [htext, w.trimChars_text]), Decimal.nearest,
    hsign, decide_signOf, hbits, Binary.ofMagnitude_magnitude]

theorem exists_text_numberText {x : Float} (hx : Binary.magnitude x < Binary.infinityBits) :
    ∃ w : PlainDecimal, (numberText x).toList = w.text := by
  by_cases hzero : Binary.magnitude x = 0
  · rw [numberText_of_zero hzero]
    exact ⟨⟨.absent, ['0'], none, none, by simp [IsDigits], isDigits_nil, by simp⟩, rfl⟩
  · obtain ⟨w, htext, -⟩ := exists_text_of_finite hzero hx
    exact ⟨w, htext⟩

theorem parse?_dropExponentZeros {d : Decimal} (hd : d.digits ≠ 0) (sign : Sign) :
    parse? (String.ofList (sign.text ++ Decimal.dropExponentZeros d.scientific)) =
      parse? (String.ofList (sign.text ++ d.scientific)) := by
  rw [Decimal.dropExponentZeros_scientific, Decimal.scientific_eq, Decimal.parse?_scientific hd,
    Decimal.parse?_scientific hd, Decimal.exponentValue_padded]
  rfl

theorem parse?_of_scientific {d : Decimal} (hd : d.digits ≠ 0) (sign : Sign)
    (hplace : d.place.natAbs < 100000) :
    parse? (String.ofList (sign.text ++ d.scientific)) = some (.decimal (sign = .minus) d) := by
  have hread : exponentValue (Decimal.paddedPower d.place).digits = d.place.natAbs := by
    rcases exponentValue_cases (Decimal.paddedPower d.place).digits with h | h
    · rw [h, Decimal.ofDigits_padded]
    · rw [Decimal.ofDigits_padded] at h
      omega
  rw [Decimal.scientific_eq, Decimal.parse?_scientific hd, hread]
  show some (Numeral.decimal _ ⟨_, _ + ((Decimal.exponentSign d.place).apply _ - _)⟩) = _
  rw [Decimal.exponentSign_apply, sub_self, add_zero]

/-- A number is what its text is read as, down to its bits, unless it is the negative zero, which is
read as zero. The text of a finite number is a plain decimal and nothing else. A decimal with an
exponent is read alike whether or not zeros lead the exponent, and exactly if its leading digit is
less than a hundred thousand places away. -/
theorem numbers_read_back (x : Float) :
    (x.isNaN = true → (ofText (numberText x)).isNaN = true) ∧
    (x = 0 ∨ x = -0 → ofText (numberText x) = 0) ∧
    (x.isNaN = false → x ≠ -0 → ofText (numberText x) = x) ∧
    (Binary.magnitude x < Binary.infinityBits →
      Text.trim (numberText x) = numberText x ∧ isPlainDecimal (numberText x).toList = true ∧
      prefixed? (numberText x).toList = none ∧
      ∀ sign : Sign, (numberText x).toList ≠ sign.text ++ "Infinity".toList) ∧
    ∀ (d : Decimal) (sign : Sign), d.digits ≠ 0 →
      parse? (String.ofList (sign.text ++ Decimal.dropExponentZeros d.scientific)) =
        parse? (String.ofList (sign.text ++ d.scientific)) ∧
      (d.place.natAbs < 100000 →
        parse? (String.ofList (sign.text ++ d.scientific)) =
          some (.decimal (sign = .minus) d)) := by
  refine ⟨ofText_numberText_of_nan, fun hx => ofText_numberText_of_zero
    (Binary.magnitude_eq_zero_iff.2 hx), fun hnumber hx => ?_, fun hx => ?_, fun d sign hd =>
    ⟨parse?_dropExponentZeros hd sign, parse?_of_scientific hd sign⟩⟩
  · by_cases hzero : Binary.magnitude x = 0
    · rw [ofText_numberText_of_zero hzero]
      exact ((Binary.magnitude_eq_zero_iff.1 hzero).resolve_right hx).symm
    · have hle : Binary.magnitude x ≤ Binary.infinityBits := by
        rw [← Nat.not_lt, ← Binary.isNaN_iff, hnumber]
        decide
      rcases hle.lt_or_eq with hfinite | hinfinite
      · exact ofText_numberText_of_finite hzero hfinite
      · exact ofText_numberText_of_infinite hinfinite
  · obtain ⟨w, htext⟩ := exists_text_numberText hx
    rw [Text.trim, htext]
    refine ⟨?_, w.isPlainDecimal_text, w.prefixed?_text, w.text_ne_infinity⟩
    rw [w.trimChars_text, ← htext, String.ofList_toList]

/-- The smallest positive double, and an exponent of one digit. -/
theorem numbers_read_back_of_smallest :
    ofText (numberText (Float.ofBits 1)) = Float.ofBits 1 ∧
    isPlainDecimal (numberText (Float.ofBits 1)).toList = true ∧
    parse? (String.ofList (Decimal.dropExponentZeros (Decimal.mk 1 (-7)).scientific)) =
      some (.decimal false ⟨1, -7⟩) := by
  have hread := numbers_read_back (Float.ofBits 1)
  have hdecimal := hread.2.2.2.2 ⟨1, -7⟩ .absent (by decide)
  refine ⟨hread.2.2.1 (by decide) (by decide), (hread.2.2.2.1 (by decide)).2.1, ?_⟩
  exact hdecimal.1.trans (hdecimal.2 (by simp [Decimal.place, Decimal.toDigits]))

end Numeral

end Lisplet
