import Lisplet.Proofs.Double
import Lisplet.Proofs.Trimming
import Lisplet.Value.Numeric

/-!
# Texts as numbers

How a text is taken apart when it is read as a number: white space around it, the words for
infinity and the prefixes of bases first, then digits, a point and more digits.

* `ofText_of_other`, `ofText_of_unprefixed`: texts that are decimals or nothing;
* `baseLetters`: the prefixes of bases;
* `mantissa_whole`, `mantissa_point`: digits, and digits around a point;
* `parse?_of_start`: texts that can only be decimals;
* `isNaN_literalValue_of_decimal`, `literalValue_of_none`: the literals of the two.
-/

namespace Lisplet

theorem toLower_of_isDigit {c : Char} (hc : c.isDigit = true) : c.toLower = c := by
  have hle := (Char.isDigit_iff_toNat.1 hc).2
  have hlt : c.val.toNat < 65 := Nat.lt_of_le_of_lt hle (by decide)
  have hupper : ¬ (c.val ≥ 'A'.val ∧ c.val ≤ 'Z'.val) := by
    rintro ⟨hge, -⟩
    exact Nat.not_le.2 hlt (UInt32.le_iff_toNat_le.1 hge)
  rw [Char.toLower, dif_neg hupper]

namespace Numeral

/-- A text with something in it that is no word for infinity and has no prefix. -/
theorem ofText_of_other {s : String} (hne : Text.trimChars s.toList ≠ [])
    (hword : ∀ w ∈ ["Infinity", "+Infinity", "-Infinity"], Text.trim s ≠ w)
    (hunprefixed : prefixed? (Text.trimChars s.toList) = none) :
    ofText s = if isPlainDecimal (Text.trimChars s.toList) then literalValue (Text.trim s)
      else nanFloat := by
  simp only [List.forall_mem_cons, Text.trim] at hword
  simp [ofText, hne, hword, hunprefixed, Text.trim]

/-- A text without white space around it that is no word for infinity and has no prefix. -/
theorem ofText_of_unprefixed {s : String} (htrim : Text.trimChars s.toList = s.toList)
    (hne : s.toList ≠ []) (hlast : s.toList.getLast? ≠ some 'y')
    (hunprefixed : prefixed? s.toList = none) :
    ofText s = if isPlainDecimal s.toList then literalValue s else nanFloat := by
  have hself : Text.trim s = s := by rw [Text.trim, htrim, String.ofList_toList]
  have hword : ∀ w ∈ ["Infinity", "+Infinity", "-Infinity"], Text.trim s ≠ w := by
    rintro w hw rfl
    have hletter : ∀ w ∈ ["Infinity", "+Infinity", "-Infinity"],
        w.toList.getLast? = some 'y' := by decide
    exact hlast (hself ▸ hletter _ hw)
  rw [ofText_of_other (by rwa [htrim]) hword (by rwa [htrim]), htrim, hself]

/-- The letters that tell a base after a leading zero, and the bases. -/
def baseLetters : List (Char × Nat) :=
  [('x', 16), ('X', 16), ('o', 8), ('O', 8), ('b', 2), ('B', 2)]

theorem baseOfLetter?_iff {c : Char} {base : Nat} :
    baseOfLetter? c = some base ↔ (c, base) ∈ baseLetters := by
  unfold baseOfLetter?
  split <;> simp_all [baseLetters, eq_comm]

/-! ### Digits and points -/

theorem span_append {p : Char → Bool} {ds rest : List Char} (hds : ∀ c ∈ ds, p c = true)
    (hrest : ∀ c ∈ rest.head?, p c = false) : span p (ds ++ rest) = (ds, rest) := by
  rw [span, List.takeWhile_append_of_pos hds, List.dropWhile_append_of_pos hds]
  cases rest with
  | nil => simp
  | cons c rest => simp [hrest c rfl]

/-- Digits only. -/
def IsDigits (ds : List Char) : Prop := ∀ c ∈ ds, c.isDigit = true

/-- What does not go on the digits before it. -/
def EndsDigits (rest : List Char) : Prop := ∀ c ∈ rest.head?, c.isDigit = false ∧ c ≠ '_'

theorem IsDigits.span {ds rest : List Char} (hds : IsDigits ds) (hrest : EndsDigits rest) :
    span Char.isDigit (ds ++ rest) = (ds, rest) :=
  span_append hds fun c hc => (hrest c hc).1

theorem IsDigits.span_separated {ds rest : List Char} (hds : IsDigits ds)
    (hrest : EndsDigits rest) :
    Numeral.span (fun c => c.isDigit || c = '_') (ds ++ rest) = (ds, rest) :=
  span_append (fun c hc => by simp [hds c hc]) fun c hc => by simp [hrest c hc]

theorem IsDigits.dropSeparators {ds : List Char} (hds : IsDigits ds) :
    dropSeparators ds = ds := by
  refine List.filter_eq_self.2 fun c hc => ?_
  have hdigit := hds c hc
  simp only [decide_eq_true_eq]
  rintro rfl
  cases hdigit

theorem endsDigits_point (rest : List Char) : EndsDigits ('.' :: rest) := by
  rintro c ⟨⟩
  decide

theorem isDigits_nil : IsDigits [] := by
  rintro c ⟨⟩

theorem endsDigits_nil : EndsDigits [] := by
  rintro c ⟨⟩

/-- Digits without a point after them. -/
theorem mantissa_whole {whole rest : List Char} (hwhole : IsDigits whole) (hrest : EndsDigits rest)
    (hpoint : rest.head? ≠ some '.') :
    mantissa Char.isDigit (whole ++ rest) = (whole, [], rest) := by
  rw [mantissa, hwhole.span_separated hrest]
  cases rest with
  | nil => rfl
  | cons c rest =>
    have hc : c ≠ '.' := fun h => hpoint (congrArg some h)
    simp [hc]

/-- Digits around a point. -/
theorem mantissa_point {whole fraction rest : List Char} (hwhole : IsDigits whole)
    (hfraction : IsDigits fraction) (hrest : EndsDigits rest) :
    mantissa Char.isDigit (whole ++ '.' :: (fraction ++ rest)) = (whole, fraction, rest) := by
  rw [mantissa, hwhole.span_separated (endsDigits_point _)]
  show (whole, Numeral.span (fun c => c.isDigit || c = '_') (fraction ++ rest)) = _
  rw [hfraction.span_separated hrest]

theorem decimal?_of_mantissa {cs whole fraction rest : List Char}
    (hcs : mantissa Char.isDigit cs = (whole, fraction, rest)) (hwhole : IsDigits whole)
    (hfraction : IsDigits fraction) (hne : whole ++ fraction ≠ []) :
    decimal? cs = (power? 'e' rest).map fun e =>
      ⟨Decimal.ofDigits (whole ++ fraction), e - fraction.length⟩ := by
  have hempty : (whole ++ fraction).isEmpty = false := by simpa using hne
  simp only [decimal?, hcs, hwhole.dropSeparators, hfraction.dropSeparators, hempty]
  cases power? 'e' rest <;> rfl

/-- What may follow the digits of a plain decimal: a power of ten or nothing. -/
def isPlainPower : List Char → Bool
  | [] => true
  | e :: rest =>
    (e = 'e' || e = 'E') && !(dropSign rest).isEmpty && (dropSign rest).all Char.isDigit

theorem isPlainDecimal_whole {cs whole rest : List Char} (hcs : dropSign cs = whole ++ rest)
    (hwhole : IsDigits whole) (hrest : EndsDigits rest) (hpoint : rest.head? ≠ some '.') :
    isPlainDecimal cs = (!whole.isEmpty && isPlainPower rest) := by
  rw [isPlainDecimal, hcs, hwhole.span hrest]
  cases rest with
  | nil => simp [isPlainPower]
  | cons c rest =>
    have hc : c ≠ '.' := fun h => hpoint (congrArg some h)
    simp [hc, isPlainPower]

theorem isPlainDecimal_point {cs whole fraction rest : List Char}
    (hcs : dropSign cs = whole ++ '.' :: (fraction ++ rest)) (hwhole : IsDigits whole)
    (hfraction : IsDigits fraction) (hrest : EndsDigits rest) :
    isPlainDecimal cs = (!(whole ++ fraction).isEmpty && isPlainPower rest) := by
  rw [isPlainDecimal, hcs, hwhole.span (endsDigits_point _)]
  simp only [hfraction.span hrest]
  cases rest <;> rfl

/-! ### Texts that can only be decimals -/

theorem separatedFrom_of_not_mem {hex : Bool} {seen : Seen} {cs : List Char}
    (hseen : seen ≠ .separator) (hcs : '_' ∉ cs) : separatedFrom hex seen cs = true := by
  induction cs generalizing seen with
  | nil => simp [separatedFrom, hseen]
  | cons c cs ih =>
    rw [List.mem_cons, not_or] at hcs
    have hc : c ≠ '_' := fun h => hcs.1 h.symm
    have hother := ih (by decide : Seen.neither ≠ .separator) hcs.2
    rw [separatedFrom]
    split
    · exact ih (by decide) hcs.2
    · rw [hother, Bool.and_true, decide_eq_true_eq]
      exact hseen

theorem dropSign_suffix (cs : List Char) : dropSign cs <:+ cs := by
  unfold dropSign
  split
  · exact List.suffix_cons _ _
  · exact List.suffix_cons _ _
  · exact List.suffix_refl _

theorem dropSign_of_isDigit {c : Char} (hc : c.isDigit = true) (cs : List Char) :
    dropSign (c :: cs) = c :: cs := by
  unfold dropSign
  split
  · rename_i heq
    cases heq
    cases hc
  · rename_i heq
    cases heq
    cases hc
  · rfl

theorem separated_of_not_mem {cs : List Char} (hcs : '_' ∉ cs) : separated cs = true := by
  have hdrop : '_' ∉ dropSign cs := fun h => hcs ((dropSign_suffix cs).subset h)
  unfold separated
  split
  · rename_i b rest heq
    rw [heq] at hdrop
    have hrest : '_' ∉ rest := fun h => hdrop (by simp [h])
    split_ifs
    · exact separatedFrom_of_not_mem (by decide) hrest
    · exact separatedFrom_of_not_mem (by decide) hrest
    · exact separatedFrom_of_not_mem (by decide) hdrop
  · exact separatedFrom_of_not_mem (by decide) hdrop

theorem magnitude?_eq_decimal? {negative : Bool} {cs : List Char} (hx : 'x' ∉ cs) (hX : 'X' ∉ cs) :
    magnitude? negative cs = (decimal? cs).map (.decimal negative) := by
  unfold magnitude?
  split
  · rename_i x c rest
    have h₁ : x ≠ 'x' := by rintro rfl; simp at hx
    have h₂ : x ≠ 'X' := by rintro rfl; simp at hX
    simp [h₁, h₂]
  · rfl

/-- A word starts with neither a digit nor a sign nor a point. -/
theorem lower_ne_word {cs : List Char}
    (hstart : ∀ c ∈ cs.head?, c.isDigit = true ∨ c ∈ ['+', '-', '.']) (w : String)
    (hw : ∃ c ∈ w.toList.head?, c.isDigit = false ∧ c ∉ ['+', '-', '.']) :
    String.ofList (cs.map Char.toLower) ≠ w := by
  rintro rfl
  obtain ⟨c, hc, hdigit, hmark⟩ := hw
  cases cs with
  | nil => simp at hc
  | cons d ds =>
    obtain rfl : d.toLower = c := by simpa using hc
    have hmarks : ∀ m ∈ ['+', '-', '.'], m.toLower = m := by simp
    have hlower : d.toLower = d := (hstart d rfl).elim toLower_of_isDigit (hmarks d)
    rw [hlower] at hdigit hmark
    rcases hstart d rfl with hd | hd
    · rw [hd] at hdigit
      cases hdigit
    · exact hmark hd

theorem head?_dropSign {cs : List Char} {c : Char} (hc : c ∈ cs.head?) :
    c = '+' ∨ c = '-' ∨ c ∈ (dropSign cs).head? := by
  unfold dropSign
  split
  · exact .inl (Option.some.inj hc).symm
  · exact .inr (.inl (Option.some.inj hc).symm)
  · exact .inr (.inr hc)

/-- A text that starts like a decimal, and has no letter `x` in it, is a decimal or nothing. -/
theorem parse?_of_start {s : String}
    (hstart : ∀ c ∈ (dropSign s.toList).head?, c.isDigit = true ∨ c = '.')
    (hseparator : '_' ∉ s.toList) (hx : 'x' ∉ s.toList) (hX : 'X' ∉ s.toList) :
    parse? s = (decimal? (dropSign s.toList)).map (.decimal (s.toList.head? = some '-')) := by
  have hdrop : ∀ c ∈ (dropSign s.toList).head?, c.isDigit = true ∨ c ∈ ['+', '-', '.'] :=
    fun c hc => (hstart c hc).imp_right (by rintro rfl; decide)
  have hhead : ∀ c ∈ s.toList.head?, c.isDigit = true ∨ c ∈ ['+', '-', '.'] := by
    intro c hc
    rcases head?_dropSign hc with rfl | rfl | hc
    · exact .inr (by decide)
    · exact .inr (by decide)
    · exact hdrop c hc
  have hx' : 'x' ∉ dropSign s.toList := fun h => hx ((dropSign_suffix _).subset h)
  have hX' : 'X' ∉ dropSign s.toList := fun h => hX ((dropSign_suffix _).subset h)
  simp [parse?, lower_ne_word hdrop "inf" ⟨'i', rfl, rfl, by decide⟩,
    lower_ne_word hdrop "infinity" ⟨'i', rfl, rfl, by decide⟩,
    lower_ne_word hhead "nan" ⟨'n', rfl, rfl, by decide⟩, separated_of_not_mem hseparator,
    magnitude?_eq_decimal? hx' hX']

/-! ### Literals -/

theorem isNaN_literalValue_of_decimal {s : String} {negative : Bool} {d : Decimal}
    (hs : parse? s = some (.decimal negative d)) : (literalValue s).isNaN = false := by
  rw [literalValue, hs]
  exact d.isNaN_nearest negative

theorem literalValue_of_none {s : String} (hs : parse? s = none) : literalValue s = nanFloat := by
  rw [literalValue, hs]

end Numeral

end Lisplet
