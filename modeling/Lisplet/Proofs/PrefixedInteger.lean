import Lisplet.Proofs.NumericText
import Lisplet.Proofs.Rounding

/-!
# Whole numbers with the prefix of a base

A text may give a whole number in base sixteen, eight or two. Its digits are read into a word of
sixty-four bits before they are made a double, so the place value decides whether they stand for a
number, and not how many digits there are: leading zeros do no harm.

* `IsDigitOf`, `placeValue`: digits, and what they stand for by their places;
* `digitsFrom_of_digits`: a word takes digits up to its size;
* `prefixed_integers_are_numbers`: which texts with a prefix are numbers, and which ones;
* `overlong_hexadecimal_not_a_number`: the first number that does not fit.
-/

namespace Lisplet.Numeral

/-! ### Digits of a base -/

/-- A character as a digit of a base up to sixteen, letters in either case. -/
def IsDigitOf (base : Nat) (c : Char) (v : Nat) : Prop :=
  v < base ∧ ("0123456789abcdef".toList[v]? = some c ∨ "0123456789ABCDEF".toList[v]? = some c)

/-- The number that digits stand for by their places, most significant digit first. -/
def placeValue (base : Nat) (vs : List Nat) : Nat := Nat.ofDigits base vs.reverse

theorem digitOf?_iff {c : Char} {v : Nat} (hv : v < 16) :
    digitOf? c = some v ↔
      "0123456789abcdef".toList[v]? = some c ∨ "0123456789ABCDEF".toList[v]? = some c := by
  constructor
  · intro h
    unfold digitOf? at h
    split_ifs at h with hdigit hlower hupper
    -- In each range of characters the code of a digit is its value and an offset.
    · obtain ⟨hge, hle⟩ := Char.isDigit_iff_toNat.1 hdigit
      have hge' : 48 ≤ c.toNat := hge
      have hle' : c.toNat ≤ 57 := hle
      have hcode : c.toNat = 48 + v := by have := Option.some.inj h; omega
      rw [← c.ofNat_toNat, hcode]
      interval_cases v <;> first | omega | exact .inl rfl
    · rw [Bool.and_eq_true, decide_eq_true_eq, decide_eq_true_eq] at hlower
      have hge : 97 ≤ c.toNat := hlower.1
      have hcode : c.toNat = 87 + v := by have := Option.some.inj h; omega
      rw [← c.ofNat_toNat, hcode]
      interval_cases v <;> first | omega | exact .inl rfl
    · rw [Bool.and_eq_true, decide_eq_true_eq, decide_eq_true_eq] at hupper
      have hge : 65 ≤ c.toNat := hupper.1
      have hcode : c.toNat = 55 + v := by have := Option.some.inj h; omega
      rw [← c.ofNat_toNat, hcode]
      interval_cases v <;> first | omega | exact .inr rfl
  · intro h
    interval_cases v <;> rcases h with h | h <;> obtain rfl := Option.some.inj h <;> rfl

theorem placeValue_cons (base v : Nat) (vs : List Nat) :
    placeValue base (v :: vs) = v * base ^ vs.length + placeValue base vs := by
  rw [placeValue, List.reverse_cons, Nat.ofDigits_append, List.length_reverse,
    Nat.ofDigits_singleton, ← placeValue, Nat.mul_comm, Nat.add_comm]

/-! ### Reading digits -/

/-- Digits are read up to their end or up to where the number no longer fits in a word. -/
theorem digitsFrom_of_digits {base : Nat} (hbase : base ≤ 16) {cs : List Char} {vs : List Nat}
    (hcs : List.Forall₂ (IsDigitOf base) cs vs) {n : Nat} (hn : n ≤ maxUnsigned) :
    digitsFrom base n cs =
      if n * base ^ vs.length + placeValue base vs ≤ maxUnsigned then
        .ok (n * base ^ vs.length + placeValue base vs)
      else .error .outOfRange := by
  induction hcs generalizing n with
  | nil =>
    have hvalue : n * base ^ ([] : List Nat).length + placeValue base [] = n := by
      simp [placeValue]
    rw [hvalue, if_pos hn, digitsFrom]
  | @cons c v cs vs hc _ ih =>
    have hdigit : digitOf? c = some v := (digitOf?_iff (hc.1.trans_le hbase)).2 hc.2
    have hvalue : n * base ^ (v :: vs).length + placeValue base (v :: vs) =
        (n * base + v) * base ^ vs.length + placeValue base vs := by
      rw [placeValue_cons, List.length_cons, pow_succ]
      ring
    rw [digitsFrom, hdigit, hvalue]
    simp only [if_neg (Nat.not_le.2 hc.1)]
    split_ifs with hlarge hfits
    · have hone : 0 < base ^ vs.length := Nat.pow_pos (Nat.zero_lt_of_lt hc.1)
      have hle := Nat.le_mul_of_pos_right (n * base + v) hone
      omega
    · rfl
    · rw [ih (Nat.not_lt.1 hlarge), if_pos ‹_›]
    · rw [ih (Nat.not_lt.1 hlarge), if_neg ‹_›]

theorem digitsFrom_of_not_digit {base : Nat} (hbase : base ≤ 16) {cs : List Char}
    (hcs : ∃ c ∈ cs, ∀ v, ¬ IsDigitOf base c v) (n : Nat) :
    ∃ e, digitsFrom base n cs = .error e := by
  induction cs generalizing n with
  | nil => simp at hcs
  | cons c cs ih =>
    rw [digitsFrom]
    split
    · exact ⟨_, rfl⟩
    · rename_i v hv
      split_ifs with hlarge hrange
      · exact ⟨_, rfl⟩
      · exact ⟨_, rfl⟩
      · have hc : IsDigitOf base c v :=
          ⟨Nat.not_le.1 hlarge, (digitOf?_iff (by omega)).1 hv⟩
        obtain ⟨d, hd, hnot⟩ := hcs
        rcases List.mem_cons.1 hd with rfl | hd
        · exact absurd hc (hnot v)
        · exact ih ⟨d, hd, hnot⟩ _

theorem exists_digits {base : Nat} {cs : List Char} (hcs : ∀ c ∈ cs, ∃ v, IsDigitOf base c v) :
    ∃ vs, List.Forall₂ (IsDigitOf base) cs vs := by
  induction cs with
  | nil => exact ⟨[], .nil⟩
  | cons c cs ih =>
    rw [List.forall_mem_cons] at hcs
    obtain ⟨v, hv⟩ := hcs.1
    obtain ⟨vs, hvs⟩ := ih hcs.2
    exact ⟨v :: vs, .cons hv hvs⟩

theorem unsigned_of_digits {base : Nat} (hbase : base ≤ 16) {cs : List Char} {vs : List Nat}
    (hne : cs ≠ []) (hcs : List.Forall₂ (IsDigitOf base) cs vs) :
    unsigned base cs =
      if placeValue base vs < 2 ^ 64 then .ok (placeValue base vs) else .error .outOfRange := by
  have hread := digitsFrom_of_digits hbase hcs (Nat.zero_le maxUnsigned)
  have hlt : placeValue base vs ≤ maxUnsigned ↔ placeValue base vs < 2 ^ 64 := by
    rw [Nat.lt_iff_le_pred (Nat.two_pow_pos 64)]
    rfl
  simp only [Nat.zero_mul, Nat.zero_add, hlt] at hread
  rw [unsigned, if_neg (by simpa using hne), hread]

/-! ### Texts with a prefix -/

section Prefixed

variable {s : String} {letter : Char} {base : Nat} {ds : List Char}

theorem base_le (hbase : (letter, base) ∈ baseLetters) : base ≤ 16 := by
  have hall : ∀ p ∈ baseLetters, p.2 ≤ 16 := by decide
  exact hall _ hbase

theorem trim_ne_word (hs : Text.trimChars s.toList = '0' :: letter :: ds) :
    ∀ w ∈ ["Infinity", "+Infinity", "-Infinity"], Text.trim s ≠ w := by
  have hhead : ∀ w ∈ ["Infinity", "+Infinity", "-Infinity"], w.toList.head? ≠ some '0' := by decide
  intro w hw heq
  refine hhead w hw ?_
  rw [← heq, Text.trim, String.toList_ofList, hs, List.head?_cons]

theorem ofText_of_prefixed (hs : Text.trimChars s.toList = '0' :: letter :: ds)
    (hne : ds ≠ []) (hbase : (letter, base) ∈ baseLetters) :
    (∀ n, unsigned base ds = .ok n → ofText s = Binary.ofNat n) ∧
      ∀ e, unsigned base ds = .error e → ofText s = nanFloat := by
  have hprefixed : prefixed? (Text.trimChars s.toList) = some (base, ds) := by
    obtain ⟨c, rest, rfl⟩ := List.exists_cons_of_ne_nil hne
    rw [hs, prefixed?, baseOfLetter?_iff.2 hbase]
    rfl
  have hsome : Text.trimChars s.toList ≠ [] := by simp [hs]
  have hword := trim_ne_word hs
  simp only [List.forall_mem_cons, Text.trim] at hword
  constructor
  · intro n hn
    simp [ofText, hsome, hword, hprefixed, hn]
  · intro e he
    simp [ofText, hsome, hword, hprefixed, he]

/-- A prefix alone is not a number. -/
theorem ofText_of_prefix_alone (hs : Text.trimChars s.toList = ['0', letter])
    (hbase : (letter, base) ∈ baseLetters) : ofText s = nanFloat := by
  have hplain : ∀ p ∈ baseLetters, isPlainDecimal ['0', p.1] = false := by decide
  rw [ofText_of_other (by simp [hs]) (trim_ne_word hs) (by rw [hs]; rfl), hs, hplain _ hbase,
    if_neg Bool.false_ne_true]

theorem ofText_of_digits (hs : Text.trimChars s.toList = '0' :: letter :: ds) (hne : ds ≠ [])
    (hbase : (letter, base) ∈ baseLetters) {vs : List Nat}
    (hds : List.Forall₂ (IsDigitOf base) ds vs) :
    ofText s = if placeValue base vs < 2 ^ 64 then Binary.ofNat (placeValue base vs)
      else nanFloat := by
  have hread := unsigned_of_digits (base_le hbase) hne hds
  split_ifs at hread ⊢ with hfits
  · exact (ofText_of_prefixed hs hne hbase).1 _ hread
  · exact (ofText_of_prefixed hs hne hbase).2 _ hread

theorem ofText_of_not_digit (hs : Text.trimChars s.toList = '0' :: letter :: ds) (hne : ds ≠ [])
    (hbase : (letter, base) ∈ baseLetters) (hds : ∃ c ∈ ds, ∀ v, ¬ IsDigitOf base c v) :
    ofText s = nanFloat := by
  obtain ⟨e, he⟩ := digitsFrom_of_not_digit (base_le hbase) hds 0
  refine (ofText_of_prefixed hs hne hbase).2 e ?_
  rw [unsigned, if_neg (by simpa using hne), he]

/-- Digits with the prefix of their base are read at their place value, rounded to the nearest
double, as long as it fits in a word of sixty-four bits. Whatever else follows a prefix is not a
number: nothing at all, a character that is no digit of the base, and a number that does not fit. -/
theorem prefixed_integers_are_numbers (hs : Text.trimChars s.toList = '0' :: letter :: ds)
    (hbase : (letter, base) ∈ baseLetters) :
    (∀ vs, ds ≠ [] → List.Forall₂ (IsDigitOf base) ds vs → placeValue base vs < 2 ^ 64 →
      ∃ bits ≤ Binary.infinityBits, ofText s = Binary.ofMagnitude false bits ∧
        Binary.IsNearest (placeValue base vs) bits) ∧
    ((ofText s).isNaN = true ↔ ds = [] ∨ (∃ c ∈ ds, ∀ v, ¬ IsDigitOf base c v) ∨
      ∃ vs, List.Forall₂ (IsDigitOf base) ds vs ∧ 2 ^ 64 ≤ placeValue base vs) := by
  refine ⟨fun vs hne hds hfits => ?_, ⟨fun hnan => ?_, ?_⟩⟩
  · have hnearest := Binary.isNearest_nearestBits (placeValue base vs) Nat.one_pos
    rw [Nat.cast_one, div_one] at hnearest
    refine ⟨_, Binary.nearestBits_le _ _, ?_, hnearest⟩
    rw [ofText_of_digits hs hne hbase hds, if_pos hfits]
    rfl
  · by_contra hother
    simp only [not_or, not_exists, not_and, not_forall, not_not, not_le] at hother
    obtain ⟨hne, hdigits, hfits⟩ := hother
    obtain ⟨vs, hvs⟩ := exists_digits hdigits
    rw [ofText_of_digits hs hne hbase hvs, if_pos (hfits vs hvs)] at hnan
    exact Bool.false_ne_true
      ((Binary.isNaN_ofMagnitude false (Binary.nearestBits_le _ _)).symm.trans hnan)
  · have hnan : ofText s = nanFloat → (ofText s).isNaN = true :=
      fun h => h ▸ Binary.isNaN_nanFloat
    by_cases hne : ds = []
    · exact fun _ => hnan (ofText_of_prefix_alone (hne ▸ hs) hbase)
    · rintro (h | h | ⟨vs, hvs, hlarge⟩)
      · exact absurd h hne
      · exact hnan (ofText_of_not_digit hs hne hbase h)
      · refine hnan ?_
        rw [ofText_of_digits hs hne hbase hvs, if_neg (Nat.not_lt.2 hlarge)]

end Prefixed

/-- The largest number of a word, in both cases of letters, and a digit that is not binary. -/
theorem prefixed_integers_are_numbers_at_word_size :
    (∃ bits ≤ Binary.infinityBits, ofText " 0XfFFFFFFFFFFFFFFF" = Binary.ofMagnitude false bits ∧
      Binary.IsNearest (2 ^ 64 - 1) bits) ∧
    (ofText "0b102").isNaN = true := by
  have hword : Text.trimChars " 0XfFFFFFFFFFFFFFFF".toList =
      '0' :: 'X' :: "fFFFFFFFFFFFFFFF".toList := by decide
  have hbinary : Text.trimChars "0b102".toList = '0' :: 'b' :: "102".toList := by decide
  constructor
  · have hdigits : List.Forall₂ (IsDigitOf 16) "fFFFFFFFFFFFFFFF".toList
        (List.replicate 16 15) := by
      simp [IsDigitOf, List.replicate]
    have hvalue : placeValue 16 (List.replicate 16 15) = 2 ^ 64 - 1 := by decide
    obtain ⟨bits, hle, hbits, hnearest⟩ := (prefixed_integers_are_numbers hword (by decide)).1 _
      (by decide) hdigits (by rw [hvalue]; decide)
    refine ⟨bits, hle, hbits, ?_⟩
    rw [hvalue] at hnearest
    exact_mod_cast hnearest
  · have hbase : ('b', 2) ∈ baseLetters := by decide
    refine (prefixed_integers_are_numbers hbinary hbase).2.2 (.inr (.inl ⟨'2', by decide, ?_⟩))
    rintro v ⟨hv, h⟩
    interval_cases v <;> simp at h

/-- Seventeen digits of base sixteen stand for the number after the largest one of a word, and are
not a number as a text. -/
theorem overlong_hexadecimal_not_a_number :
    List.Forall₂ (IsDigitOf 16) "10000000000000000".toList (1 :: List.replicate 16 0) ∧
    placeValue 16 (1 :: List.replicate 16 0) = 2 ^ 64 ∧
    (ofText "0x10000000000000000").isNaN = true := by
  have htrim : Text.trimChars "0x10000000000000000".toList =
      '0' :: 'x' :: "10000000000000000".toList := by decide
  have hdigits : List.Forall₂ (IsDigitOf 16) "10000000000000000".toList
      (1 :: List.replicate 16 0) := by
    simp [IsDigitOf, List.replicate]
  have hvalue : placeValue 16 (1 :: List.replicate 16 0) = 2 ^ 64 := by decide
  refine ⟨hdigits, hvalue, ?_⟩
  rw [ofText_of_digits htrim (by decide) (by decide) hdigits, hvalue, if_neg (lt_irrefl _),
    Binary.isNaN_nanFloat]

end Lisplet.Numeral
