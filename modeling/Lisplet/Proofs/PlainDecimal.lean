import Lisplet.Proofs.NumericText
import Lisplet.Proofs.Rounding

/-!
# Decimals in texts

A text is read as a decimal in two steps: it has to be a plain decimal, and then the reader of
numerals, which takes many more forms, makes a number of it. The grammar of plain decimals is given
here as a type whose members are all the ways to write one.

* `PlainDecimal`, `PlainDecimal.text`: decimals as they are written;
* `PlainDecimal.isPlainDecimal_text`, `PlainDecimal.exists_of_isPlainDecimal`: they are what the
  first step lets through;
* `PlainDecimal.parse?_text`, `PlainDecimal.nearestBits_read`: the second step takes all of them,
  and at their value;
* `plain_decimals_are_numbers`: which texts are numbers.
-/

namespace Lisplet.Numeral

/-! ### Decimals as they are written -/

/-- A sign, which may be left out. -/
inductive Sign where
  | absent
  | plus
  | minus
  deriving DecidableEq, Repr

/-- The text of a sign. -/
def Sign.text : Sign → List Char
  | .absent => []
  | .plus => ['+']
  | .minus => ['-']

/-- A number with a sign before it. -/
def Sign.apply (sign : Sign) (n : Nat) : Int := if sign = .minus then -n else n

/-- A power of ten as it is written. -/
structure PlainPower where
  mark : Char
  sign : Sign
  digits : List Char
  mark_eq : mark = 'e' ∨ mark = 'E'
  digits_ne_nil : digits ≠ []
  isDigits_digits : IsDigits digits

/-- The text of a power of ten. -/
def PlainPower.text (p : PlainPower) : List Char := p.mark :: (p.sign.text ++ p.digits)

/-- A decimal as it is written: an optional sign, digits with a point before, among or after them,
and an optional power of ten. -/
structure PlainDecimal where
  sign : Sign
  whole : List Char
  /-- The digits after the point, if there is a point. -/
  fraction : Option (List Char)
  power : Option PlainPower
  isDigits_whole : IsDigits whole
  isDigits_fraction : IsDigits (fraction.getD [])
  digits_ne_nil : whole ++ fraction.getD [] ≠ []

namespace PlainDecimal

/-- The text of the power of ten, if there is one. -/
def powerText (w : PlainDecimal) : List Char := (w.power.map (·.text)).getD []

/-- The text of the digits and the point. -/
def mantissaText (w : PlainDecimal) : List Char :=
  match w.fraction with
  | some fraction => w.whole ++ '.' :: fraction
  | none => w.whole

/-- The text of a decimal. -/
def text (w : PlainDecimal) : List Char := w.sign.text ++ (w.mantissaText ++ w.powerText)

/-- All digits but those of the power. -/
def digits (w : PlainDecimal) : List Char := w.whole ++ w.fraction.getD []

/-- The exponent of the power of ten. -/
def exponent (w : PlainDecimal) : Int :=
  (w.power.map fun p => p.sign.apply (Decimal.ofDigits p.digits)).getD 0

/-- The exponent that is read from the digits. -/
def readExponent (w : PlainDecimal) : Int :=
  (w.power.map fun p => p.sign.apply (exponentValue p.digits)).getD 0

/-- The digits with a given exponent. -/
def scaled (w : PlainDecimal) (e : Int) : Decimal :=
  ⟨Decimal.ofDigits w.digits, e - (w.fraction.getD []).length⟩

@[simp] theorem scaled_exponent (w : PlainDecimal) (e : Int) :
    (w.scaled e).exponent = e - (w.fraction.getD []).length := rfl

end PlainDecimal

/-! ### Signs -/

theorem dropSign_text {cs : List Char} (hcs : ∀ c ∈ cs.head?, c ≠ '+' ∧ c ≠ '-') (sign : Sign) :
    dropSign (sign.text ++ cs) = cs := by
  cases sign with
  | plus => rfl
  | minus => rfl
  | absent =>
    show dropSign cs = cs
    unfold dropSign
    split
    · exact absurd rfl (hcs '+' rfl).1
    · exact absurd rfl (hcs '-' rfl).2
    · rfl

theorem exists_sign (cs : List Char) : ∃ sign : Sign, cs = sign.text ++ dropSign cs := by
  unfold dropSign
  split
  · exact ⟨.plus, rfl⟩
  · exact ⟨.minus, rfl⟩
  · exact ⟨.absent, rfl⟩

theorem head?_eq_minus_iff {cs : List Char} (hcs : ∀ c ∈ cs.head?, c ≠ '+' ∧ c ≠ '-')
    (sign : Sign) : (sign.text ++ cs).head? = some '-' ↔ sign = .minus := by
  cases sign with
  | plus => simp [Sign.text]
  | minus => simp [Sign.text]
  | absent =>
    simp only [reduceCtorEq, iff_false]
    exact fun h => (hcs '-' h).2 rfl

theorem IsDigits.ne_sign {ds : List Char} (hds : IsDigits ds) :
    ∀ c ∈ ds.head?, c ≠ '+' ∧ c ≠ '-' := by
  intro c hc
  have hdigit := hds c (List.mem_of_mem_head? hc)
  constructor <;> rintro rfl <;> cases hdigit

/-! ### Powers of ten -/

theorem PlainPower.dropSign_digits (p : PlainPower) :
    dropSign (p.sign.text ++ p.digits) = p.digits :=
  dropSign_text p.isDigits_digits.ne_sign p.sign

theorem isPlainPower_iff {cs : List Char} :
    isPlainPower cs = true ↔ cs = [] ∨ ∃ p : PlainPower, cs = p.text := by
  constructor
  · intro h
    cases cs with
    | nil => exact .inl rfl
    | cons e rest =>
      simp only [isPlainPower, Bool.and_eq_true, Bool.or_eq_true, decide_eq_true_eq,
        Bool.not_eq_true', List.isEmpty_eq_false_iff, List.all_eq_true] at h
      obtain ⟨sign, hsign⟩ := exists_sign rest
      exact .inr ⟨⟨e, sign, dropSign rest, h.1.1, h.1.2, h.2⟩, congrArg (e :: ·) hsign⟩
  · rintro (rfl | ⟨p, rfl⟩)
    · rfl
    · simp only [PlainPower.text, isPlainPower, p.dropSign_digits, Bool.and_eq_true,
        Bool.or_eq_true, decide_eq_true_eq, Bool.not_eq_true', List.isEmpty_eq_false_iff,
        List.all_eq_true]
      exact ⟨⟨p.mark_eq, p.digits_ne_nil⟩, p.isDigits_digits⟩

theorem power?_text (p : PlainPower) :
    power? 'e' p.text = some (p.sign.apply (exponentValue p.digits)) := by
  have hmark : p.mark.toLower = 'e' := by
    rcases p.mark_eq with h | h <;> rw [h] <;> decide
  have hhead : p.digits.head?.any Char.isDigit = true := by
    obtain ⟨c, cs, hcs⟩ := List.exists_cons_of_ne_nil p.digits_ne_nil
    simp [hcs, p.isDigits_digits c (by simp [hcs])]
  have hall : p.digits.all (fun c => c.isDigit || c = '_') = true :=
    List.all_eq_true.2 fun c hc => by simp [p.isDigits_digits c hc]
  rw [PlainPower.text, power?, if_neg (by simp [hmark])]
  simp only [p.dropSign_digits, p.isDigits_digits.dropSeparators, hhead, hall, Bool.and_self,
    if_true, head?_eq_minus_iff p.isDigits_digits.ne_sign, Sign.apply]

namespace PlainDecimal

theorem head?_powerText (w : PlainDecimal) : ∀ c ∈ w.powerText.head?, c = 'e' ∨ c = 'E' := by
  intro c hc
  cases hpower : w.power with
  | none => simp [powerText, hpower] at hc
  | some p =>
    obtain rfl : p.mark = c := by simpa [powerText, hpower, PlainPower.text] using hc
    exact p.mark_eq

theorem endsDigits_powerText (w : PlainDecimal) : EndsDigits w.powerText := by
  intro c hc
  rcases w.head?_powerText c hc with rfl | rfl <;> decide

theorem head?_powerText_ne_point (w : PlainDecimal) : w.powerText.head? ≠ some '.' := by
  intro h
  rcases w.head?_powerText '.' h with h | h <;> cases h

theorem isPlainPower_powerText (w : PlainDecimal) : isPlainPower w.powerText = true := by
  rw [isPlainPower_iff, powerText]
  cases w.power with
  | none => exact .inl rfl
  | some p => exact .inr ⟨p, rfl⟩

theorem power?_powerText (w : PlainDecimal) : power? 'e' w.powerText = some w.readExponent := by
  rw [powerText, readExponent]
  cases w.power with
  | none => rfl
  | some p => exact power?_text p

/-! ### Reading decimals -/

/-- A decimal starts with a digit or a point. -/
theorem head?_mantissaText (w : PlainDecimal) :
    ∀ c ∈ (w.mantissaText ++ w.powerText).head?, c.isDigit = true ∨ c = '.' := by
  intro c hc
  have hne := w.digits_ne_nil
  have hwhole := w.isDigits_whole
  rw [mantissaText] at hc
  cases hlist : w.whole with
  | nil =>
    cases hfraction : w.fraction with
    | none => simp [hlist, hfraction] at hne
    | some fraction =>
      refine .inr ?_
      simpa [hlist, hfraction, eq_comm] using hc
  | cons d ds =>
    refine .inl (hwhole c ?_)
    cases hfraction : w.fraction <;> simp_all

theorem head?_ne_sign (w : PlainDecimal) :
    ∀ c ∈ (w.mantissaText ++ w.powerText).head?, c ≠ '+' ∧ c ≠ '-' := by
  intro c hc
  rcases w.head?_mantissaText c hc with h | rfl
  · constructor <;> rintro rfl <;> cases h
  · decide

theorem dropSign_text (w : PlainDecimal) : dropSign w.text = w.mantissaText ++ w.powerText :=
  Numeral.dropSign_text w.head?_ne_sign w.sign

theorem isPlainDecimal_text (w : PlainDecimal) : isPlainDecimal w.text = true := by
  have hdrop := w.dropSign_text
  have hne := w.digits_ne_nil
  rw [mantissaText] at hdrop
  cases hfraction : w.fraction with
  | none =>
    simp only [hfraction, Option.getD_none, List.append_nil] at hdrop hne
    rw [isPlainDecimal_whole hdrop w.isDigits_whole w.endsDigits_powerText
      w.head?_powerText_ne_point, w.isPlainPower_powerText]
    simpa using hne
  | some fraction =>
    have hdigits := w.isDigits_fraction
    simp only [hfraction, Option.getD_some, List.append_assoc, List.cons_append]
      at hdrop hne hdigits
    rw [isPlainDecimal_point hdrop w.isDigits_whole hdigits w.endsDigits_powerText,
      w.isPlainPower_powerText]
    simpa using hne

theorem mantissa_text (w : PlainDecimal) : mantissa Char.isDigit (w.mantissaText ++ w.powerText) =
    (w.whole, w.fraction.getD [], w.powerText) := by
  rw [mantissaText]
  cases hfraction : w.fraction with
  | none =>
    exact mantissa_whole w.isDigits_whole w.endsDigits_powerText w.head?_powerText_ne_point
  | some fraction =>
    have hdigits := w.isDigits_fraction
    rw [hfraction, Option.getD_some] at hdigits
    rw [List.append_assoc, List.cons_append, Option.getD_some]
    exact mantissa_point w.isDigits_whole hdigits w.endsDigits_powerText

theorem decimal?_text (w : PlainDecimal) :
    decimal? (w.mantissaText ++ w.powerText) = some (w.scaled w.readExponent) := by
  rw [decimal?_of_mantissa w.mantissa_text w.isDigits_whole w.isDigits_fraction w.digits_ne_nil,
    w.power?_powerText]
  rfl

/-- The characters of a decimal. -/
theorem mem_text {w : PlainDecimal} {c : Char} (hc : c ∈ w.text) :
    c.isDigit = true ∨ c ∈ ['+', '-', '.', 'e', 'E'] := by
  have hsign : ∀ sign : Sign, c ∈ sign.text → c ∈ ['+', '-', '.', 'e', 'E'] := by
    rintro (_ | _ | _) hmem <;> simp_all [Sign.text]
  simp only [text, mantissaText, powerText, List.mem_append] at hc
  rcases hc with hc | hc | hc
  · exact .inr (hsign w.sign hc)
  · cases hfraction : w.fraction with
    | none =>
      simp only [hfraction] at hc
      exact .inl (w.isDigits_whole c hc)
    | some fraction =>
      have hdigits := w.isDigits_fraction
      simp only [hfraction, Option.getD_some, List.mem_append, List.mem_cons] at hc hdigits
      rcases hc with hc | rfl | hc
      · exact .inl (w.isDigits_whole c hc)
      · exact .inr (by decide)
      · exact .inl (hdigits c hc)
  · cases hpower : w.power with
    | none => simp [hpower] at hc
    | some p =>
      simp only [hpower, Option.map_some, Option.getD_some, PlainPower.text, List.mem_cons,
        List.mem_append] at hc
      rcases hc with rfl | hc | hc
      · rcases p.mark_eq with h | h <;> simp [h]
      · exact .inr (hsign p.sign hc)
      · exact .inl (p.isDigits_digits c hc)

theorem not_mem_text (w : PlainDecimal) {c : Char}
    (hc : c.isDigit = false ∧ c ∉ ['+', '-', '.', 'e', 'E']) : c ∉ w.text := by
  intro hmem
  rcases mem_text hmem with h | h
  · rw [h] at hc
    cases hc.1
  · exact hc.2 h

theorem trimChars_text (w : PlainDecimal) : Text.trimChars w.text = w.text := by
  have hmarks : ∀ c ∈ ['+', '-', '.', 'e', 'E'], Text.isBlank c = false := by
    simp [Text.isBlank]
  have hblank : ∀ c ∈ w.text, Text.isBlank c = false := by
    intro c hc
    rcases mem_text hc with h | h
    · exact Text.isBlank_of_isDigit h
    · exact hmarks c h
  exact Text.trimChars_eq_self (fun c hc => hblank c (List.mem_of_mem_head? hc))
    (fun c hc => hblank c (List.mem_of_mem_getLast? hc))

theorem parse?_text (w : PlainDecimal) : parse? (String.ofList w.text) =
    some (.decimal (w.sign = .minus) (w.scaled w.readExponent)) := by
  have hlist : (String.ofList w.text).toList = w.text := String.toList_ofList
  rw [parse?_of_start, hlist, w.dropSign_text, w.decimal?_text, Option.map_some]
  · simp only [text, head?_eq_minus_iff w.head?_ne_sign w.sign]
  · rw [hlist, w.dropSign_text]
    exact w.head?_mantissaText
  all_goals
    rw [hlist]
    exact w.not_mem_text (by decide)

theorem isDigits_takeWhile (cs : List Char) : IsDigits (cs.takeWhile Char.isDigit) :=
  fun _ hc => List.mem_takeWhile_imp hc

/-- What is taken for a plain decimal is written as one. -/
theorem exists_of_isPlainDecimal {cs : List Char} (hcs : isPlainDecimal cs = true) :
    ∃ w : PlainDecimal, cs = w.text := by
  obtain ⟨sign, hsign⟩ := exists_sign cs
  obtain ⟨whole, rest, hwhole, hdrop, hspan⟩ : ∃ whole rest, IsDigits whole ∧
      dropSign cs = whole ++ rest ∧ span Char.isDigit (dropSign cs) = (whole, rest) :=
    ⟨_, _, isDigits_takeWhile _, List.takeWhile_append_dropWhile.symm, rfl⟩
  -- The digits after the point are split off where there is a point.
  obtain ⟨fraction, more, hfraction, hrest, hne, hpower⟩ :
      ∃ (fraction : Option (List Char)) (more : List Char), IsDigits (fraction.getD []) ∧
        rest = (fraction.map ('.' :: ·)).getD [] ++ more ∧ whole ++ fraction.getD [] ≠ [] ∧
        isPlainPower more = true := by
    rw [isPlainDecimal, hspan] at hcs
    simp only [Bool.and_eq_true, Bool.not_eq_true', List.isEmpty_eq_false_iff] at hcs
    split at hcs
    · rename_i more
      refine ⟨some (more.takeWhile Char.isDigit), more.dropWhile Char.isDigit,
        isDigits_takeWhile more, ?_, hcs.1, ?_⟩
      · simp [List.takeWhile_append_dropWhile]
      · have h := hcs.2
        revert h
        simp only [span]
        cases more.dropWhile Char.isDigit <;> exact id
    · refine ⟨none, rest, isDigits_nil, rfl, hcs.1, ?_⟩
      have h := hcs.2
      revert h
      cases rest <;> exact id
  obtain ⟨power, hpower⟩ : ∃ power : Option PlainPower, more = (power.map (·.text)).getD [] := by
    rcases isPlainPower_iff.1 hpower with rfl | ⟨p, rfl⟩
    · exact ⟨none, rfl⟩
    · exact ⟨some p, rfl⟩
  refine ⟨⟨sign, whole, fraction, power, hwhole, hfraction, hne⟩, ?_⟩
  rw [text, mantissaText, powerText, hsign, hdrop, hrest, hpower]
  cases fraction <;> simp

end PlainDecimal

/-! ### Values -/

theorem ofDigits_concat (ds : List Char) (c : Char) :
    Decimal.ofDigits (ds ++ [c]) = 10 * Decimal.ofDigits ds + Decimal.digitValue c := by
  rw [Decimal.ofDigits, List.foldl_concat]
  rfl

/-- An exponent is read as it is written, unless it has reached a hundred thousand; then what is
read has reached ten thousand. -/
theorem exponentValue_cases (ds : List Char) :
    exponentValue ds = Decimal.ofDigits ds ∨
      10000 ≤ exponentValue ds ∧ 100000 ≤ Decimal.ofDigits ds := by
  induction ds using List.reverseRecOn with
  | nil => exact .inl rfl
  | append_singleton ds c ih =>
    have hread : exponentValue (ds ++ [c]) = if exponentValue ds < 10000 then
        10 * exponentValue ds + Decimal.digitValue c else exponentValue ds := by
      rw [exponentValue, List.foldl_concat]
      rfl
    rw [hread, ofDigits_concat]
    split <;> omega

theorem ofDigits_lt {ds : List Char} (hds : IsDigits ds) :
    Decimal.ofDigits ds < 10 ^ ds.length := by
  induction ds using List.reverseRecOn with
  | nil => exact Nat.one_pos
  | append_singleton ds c ih =>
    have hc : Decimal.digitValue c < 10 := by
      have hle := (Char.isDigit_iff_toNat.1 (hds c (by simp))).2
      have hle' : c.toNat ≤ 57 := hle
      rw [Decimal.digitValue]
      omega
    have hlt := ih fun d hd => hds d (List.mem_append_left _ hd)
    rw [ofDigits_concat, List.length_append, List.length_singleton, pow_succ]
    omega

namespace PlainDecimal

/-- The exponent that is read is the one that is written, or both are large and of one sign. -/
theorem readExponent_cases (w : PlainDecimal) :
    w.readExponent = w.exponent ∨ 100000 ≤ w.exponent.natAbs ∧
      (10000 ≤ w.readExponent ∧ 10000 ≤ w.exponent ∨
        w.readExponent ≤ -10000 ∧ w.exponent ≤ -10000) := by
  rw [readExponent, exponent]
  cases w.power with
  | none => exact .inl rfl
  | some p =>
    simp only [Option.map_some, Option.getD_some, Sign.apply]
    rcases exponentValue_cases p.digits with h | h
    · exact .inl (by rw [h])
    · right
      split <;> omega

/-- What is read is rounded as what is written, unless there are thousands of digits before an
exponent of six digits or more. -/
theorem nearestBits_read (w : PlainDecimal)
    (hw : w.digits.length ≤ 9000 ∨ w.exponent.natAbs < 100000) :
    (w.scaled w.readExponent).nearestBits = (w.scaled w.exponent).nearestBits := by
  rcases w.readExponent_cases with h | ⟨hlarge, h⟩
  · rw [h]
  · have hlength : w.digits.length ≤ 9000 := hw.resolve_right (Nat.not_lt.2 hlarge)
    have hfraction : (w.fraction.getD []).length ≤ w.digits.length := by
      rw [digits, List.length_append]
      exact Nat.le_add_left _ _
    by_cases hzero : Decimal.ofDigits w.digits = 0
    · refine Decimal.nearestBits_congr ?_
      simp [Decimal.value, scaled, hzero]
    · rcases h with ⟨hread, hwritten⟩ | ⟨hread, hwritten⟩
      · rw [Decimal.nearestBits_of_large hzero (by rw [scaled_exponent]; omega),
          Decimal.nearestBits_of_large hzero (by rw [scaled_exponent]; omega)]
      · have hdigits : Decimal.ofDigits w.digits < 10 ^ w.digits.length :=
          ofDigits_lt (List.forall_mem_append.2 ⟨w.isDigits_whole, w.isDigits_fraction⟩)
        rw [Decimal.nearestBits_of_small hdigits (by rw [scaled_exponent]; omega),
          Decimal.nearestBits_of_small hdigits (by rw [scaled_exponent]; omega)]

end PlainDecimal

/-! ### Texts -/

theorem prefixed?_of_not_mem {cs : List Char} (hcs : ∀ letter rest base,
    cs = '0' :: letter :: rest → (letter, base) ∉ baseLetters) : prefixed? cs = none := by
  unfold prefixed?
  split
  · rw [Option.map_eq_none_iff, Option.eq_none_iff_forall_ne_some]
    exact fun base h => hcs _ _ base rfl (baseOfLetter?_iff.1 h)
  · rfl

/-- Texts that are written out: nothing, infinity with an optional sign, and plain decimals. -/
def IsWritten (cs : List Char) : Prop :=
  cs = [] ∨ (∃ sign : Sign, cs = sign.text ++ "Infinity".toList) ∨ ∃ w : PlainDecimal, cs = w.text

theorem ofText_of_infinity {s : String} {sign : Sign}
    (hs : Text.trimChars s.toList = sign.text ++ "Infinity".toList) :
    ofText s = Binary.ofMagnitude (sign = .minus) Binary.infinityBits := by
  cases sign <;> simp [ofText, hs] <;> rfl

theorem ofText_of_empty {s : String} (hs : Text.trimChars s.toList = []) :
    ofText s = Binary.ofNat 0 := by
  simp [ofText, hs]

theorem trim_ne_infinity {s : String}
    (hs : ∀ sign : Sign, Text.trimChars s.toList ≠ sign.text ++ "Infinity".toList) :
    ∀ w ∈ ["Infinity", "+Infinity", "-Infinity"], Text.trim s ≠ w := by
  have hword : ∀ sign : Sign, Text.trim s ≠ String.ofList (sign.text ++ "Infinity".toList) :=
    fun sign h => hs sign (String.ofList_injective h)
  simp only [List.forall_mem_cons]
  exact ⟨hword .absent, hword .plus, hword .minus, by simp⟩

namespace PlainDecimal

theorem text_ne_infinity (w : PlainDecimal) (sign : Sign) :
    w.text ≠ sign.text ++ "Infinity".toList := by
  intro h
  refine w.not_mem_text (c := 'y') (by decide) ?_
  rw [h]
  exact List.mem_append_right _ (by decide)

theorem text_ne_nil (w : PlainDecimal) : w.text ≠ [] := by
  intro h
  have hplain := w.isPlainDecimal_text
  rw [h] at hplain
  cases hplain

theorem prefixed?_text (w : PlainDecimal) : prefixed? w.text = none := by
  refine prefixed?_of_not_mem fun letter rest base h hletter => ?_
  have hmem : letter ∈ w.text := by simp [h]
  have hclass : ∀ p ∈ baseLetters, p.1.isDigit = false ∧ p.1 ∉ ['+', '-', '.', 'e', 'E'] := by
    simp [baseLetters]
  exact w.not_mem_text (hclass _ hletter) hmem

theorem ofText_of_text {s : String} {w : PlainDecimal} (hs : Text.trimChars s.toList = w.text) :
    ofText s = (w.scaled w.readExponent).nearest (w.sign = .minus) := by
  have hword := trim_ne_infinity fun sign => hs ▸ w.text_ne_infinity sign
  rw [ofText_of_other (hs ▸ w.text_ne_nil) hword (hs ▸ w.prefixed?_text), hs,
    if_pos w.isPlainDecimal_text, literalValue, Text.trim, hs, w.parse?_text]
  rfl

end PlainDecimal

theorem isNaN_ofText_iff {s : String} (hunprefixed : prefixed? (Text.trimChars s.toList) = none) :
    (ofText s).isNaN = true ↔ ¬ IsWritten (Text.trimChars s.toList) := by
  rw [← not_iff_not, not_not, Bool.not_eq_true]
  constructor
  · intro hnumber
    by_contra hnot
    rw [IsWritten, not_or, not_or, not_exists] at hnot
    obtain ⟨hne, hword, hdecimal⟩ := hnot
    rw [ofText_of_other hne (trim_ne_infinity hword) hunprefixed,
      if_neg fun h => hdecimal (PlainDecimal.exists_of_isPlainDecimal h),
      Binary.isNaN_nanFloat] at hnumber
    cases hnumber
  · rintro (h | ⟨sign, h⟩ | ⟨w, h⟩)
    · rw [ofText_of_empty h]
      exact Binary.isNaN_ofMagnitude _ (Binary.nearestBits_le _ _)
    · rw [ofText_of_infinity h]
      exact Binary.isNaN_ofMagnitude _ le_rfl
    · rw [PlainDecimal.ofText_of_text h]
      exact Decimal.isNaN_nearest _ _

theorem parse?_infinity (sign : Sign) :
    parse? (String.ofList (sign.text ++ "Infinity".toList)) = some (.infinite (sign = .minus)) := by
  cases sign <;> rfl

/-- Numerals that no text is taken for: words in another spelling, hexadecimals, and decimals with
separated digits. -/
def IsRefused (cs : List Char) : Numeral → Prop
  | .nan => True
  | .infinite _ => ∀ sign : Sign, cs ≠ sign.text ++ "Infinity".toList
  | .decimal _ _ => '_' ∈ cs
  | .binary _ _ _ => True

theorem not_isRefused {cs : List Char} {n : Numeral} (hcs : IsWritten cs)
    (hn : parse? (String.ofList cs) = some n) : ¬ IsRefused cs n := by
  rcases hcs with rfl | ⟨sign, rfl⟩ | ⟨w, rfl⟩
  · cases hn
  · rw [parse?_infinity] at hn
    obtain rfl := Option.some.inj hn
    exact fun h => h sign rfl
  · rw [w.parse?_text] at hn
    obtain rfl := Option.some.inj hn
    exact w.not_mem_text (by decide)

/-- A text without the prefix of a base stands for a number if and only if there is nothing but
white space in it, or it is infinity with an optional sign, or a plain decimal. A plain decimal is
rounded to the nearest double, which has its sign and may be infinite or zero; thousands of digits
before an exponent of six digits are not read exactly, but they are read as a number as well.
Numerals of any other form are refused. -/
theorem plain_decimals_are_numbers {s : String} (hunprefixed : ∀ letter rest base,
    Text.trimChars s.toList = '0' :: letter :: rest → (letter, base) ∉ baseLetters) :
    ((ofText s).isNaN = true ↔ ¬ IsWritten (Text.trimChars s.toList)) ∧
    (∀ w : PlainDecimal, Text.trimChars s.toList = w.text →
      ∃ bits ≤ Binary.infinityBits, ofText s = Binary.ofMagnitude (w.sign = .minus) bits ∧
        (w.digits.length ≤ 9000 ∨ w.exponent.natAbs < 100000 →
          Binary.IsNearest (w.scaled w.exponent).value bits)) ∧
    ∀ n, parse? (Text.trim s) = some n → IsRefused (Text.trimChars s.toList) n →
      (ofText s).isNaN = true := by
  have hiff := isNaN_ofText_iff (prefixed?_of_not_mem hunprefixed)
  refine ⟨hiff, fun w hw => ?_, fun n hn href => hiff.2 fun hcs => not_isRefused hcs hn href⟩
  refine ⟨_, Decimal.nearestBits_le _, PlainDecimal.ofText_of_text hw, fun hread => ?_⟩
  rw [w.nearestBits_read hread]
  exact Decimal.isNearest_nearestBits _

/-- A decimal that starts with a point, between white space, and a hexadecimal after a sign. -/
theorem plain_decimals_are_numbers_of_signed :
    (∃ bits, ofText "\t-.5e3\n" = Binary.ofMagnitude true bits ∧ Binary.IsNearest 500 bits) ∧
    (ofText "+0x1p4").isNaN = true := by
  have htrim : Text.trimChars "\t-.5e3\n".toList = "-.5e3".toList := by decide
  have hsigned : Text.trimChars "+0x1p4".toList = "+0x1p4".toList := by decide
  constructor
  · let w : PlainDecimal :=
      { sign := .minus, whole := [], fraction := some ['5']
        power := some ⟨'e', .absent, ['3'], .inl rfl, by decide, by simp [IsDigits]⟩
        isDigits_whole := isDigits_nil, isDigits_fraction := by simp [IsDigits]
        digits_ne_nil := by decide }
    have hvalue : (w.scaled w.exponent).value = 500 := by
      show ((5 : Nat) : ℚ) * 10 ^ (3 - (1 : Nat) : ℤ) = 500
      norm_num
    obtain ⟨bits, -, hbits, hnearest⟩ := (plain_decimals_are_numbers (s := "\t-.5e3\n")
      (by rw [htrim]; simp)).2.1 w htrim
    exact ⟨bits, hbits, hvalue ▸ hnearest (.inl (by decide))⟩
  · exact (plain_decimals_are_numbers (s := "+0x1p4") (by rw [hsigned]; simp)).2.2
      (.binary false 1 4) rfl trivial

end Lisplet.Numeral
