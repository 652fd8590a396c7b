import Lisplet.Eval
import Lisplet.Proofs.NumericText
import Lisplet.Proofs.Render

/-!
# Number literals and texts

A number in a source and a string with the same characters in it are read by different rules: the
one as a numeral of whatever form, the other as one of a few forms that are told apart first. On
what the scanner takes for a number the two agree.

* `unsignedText_cases`: digits up to a point, and digits up to the second one;
* `Numeral.mantissa_numberText`: both readings take a number apart alike;
* `ofText_numberText`, `literalValue_of_two_le`: what each of them makes of it;
* `literal_agrees_with_text`: the numbers of a source.
-/

namespace Lisplet

/-! ### The characters of a number -/

theorem isUnsignedText_dropSign {cs : List Char} (hcs : isNumberText cs = true) :
    isUnsignedText (Numeral.dropSign cs) = true := by
  unfold isNumberText at hcs
  split at hcs
  · exact hcs
  · cases cs with
    | nil => cases hcs
    | cons c cs =>
      have hdigit : c.isDigit = true := (Bool.and_eq_true_iff.1 hcs).1
      rwa [Numeral.dropSign_of_isDigit hdigit]

/-- The characters of a number are digits, points and a minus sign. -/
theorem mem_numberText {cs : List Char} (hcs : isNumberText cs = true) {c : Char} (hc : c ∈ cs) :
    c.isDigit = true ∨ c = '.' ∨ c = '-' := by
  have hunsigned : ∀ {ds : List Char}, isUnsignedText ds = true → c ∈ ds →
      c.isDigit = true ∨ c = '.' := by
    intro ds hds hc
    cases ds with
    | nil => cases hds
    | cons d ds =>
      rw [isUnsignedText, Bool.and_eq_true, List.all_eq_true] at hds
      rcases List.mem_cons.1 hc with rfl | hc
      · exact .inl hds.1
      · simpa [isNumberPart] using hds.2 c hc
  unfold isNumberText at hcs
  split at hcs
  · rcases List.mem_cons.1 hc with rfl | hc
    · exact .inr (.inr rfl)
    · exact (hunsigned hcs hc).imp_right .inl
  · exact (hunsigned hcs hc).imp_right .inl

theorem not_mem_numberText {cs : List Char} (hcs : isNumberText cs = true) {c : Char}
    (hc : c.isDigit = false ∧ c ≠ '.' ∧ c ≠ '-') : c ∉ cs := by
  intro hmem
  rcases mem_numberText hcs hmem with h | h | h
  · rw [h] at hc
    cases hc.1
  · exact hc.2.1 h
  · exact hc.2.2 h

theorem isBlank_of_mem_numberText {cs : List Char} (hcs : isNumberText cs = true) {c : Char}
    (hc : c ∈ cs) : Text.isBlank c = false := by
  rcases mem_numberText hcs hc with h | rfl | rfl
  · exact Text.isBlank_of_isDigit h
  · decide
  · decide

/-! ### Points -/

/-- Digits and points are digits up to the end or up to the first point. -/
theorem numberPart_cases {cs : List Char} (hcs : cs.all isNumberPart = true) :
    ∃ ds rest, cs = ds ++ rest ∧ Numeral.IsDigits ds ∧
      (rest = [] ∨ ∃ more, rest = '.' :: more ∧ more.all isNumberPart = true) := by
  induction cs with
  | nil => exact ⟨[], [], rfl, Numeral.isDigits_nil, .inl rfl⟩
  | cons c cs ih =>
    rw [List.all_cons, Bool.and_eq_true] at hcs
    rcases Bool.or_eq_true_iff.1 hcs.1 with hc | hc
    · obtain ⟨ds, rest, rfl, hds, hrest⟩ := ih hcs.2
      exact ⟨c :: ds, rest, rfl, List.forall_mem_cons.2 ⟨hc, hds⟩, hrest⟩
    · obtain rfl := of_decide_eq_true hc
      exact ⟨[], '.' :: cs, rfl, Numeral.isDigits_nil, .inr ⟨cs, rfl, hcs.2⟩⟩

/-- A number without its sign has no point, or digits around its first point up to the end or up
to the second one. -/
theorem unsignedText_cases {cs : List Char} (hcs : isUnsignedText cs = true) :
    ∃ whole, whole ≠ [] ∧ Numeral.IsDigits whole ∧ (cs = whole ∨ ∃ fraction rest,
      cs = whole ++ '.' :: (fraction ++ rest) ∧ Numeral.IsDigits fraction ∧
        (rest = [] ∨ ∃ more, rest = '.' :: more)) := by
  cases cs with
  | nil => cases hcs
  | cons c cs =>
    obtain ⟨hc, hall⟩ := Bool.and_eq_true_iff.1 hcs
    obtain ⟨ds, rest, rfl, hds, hrest⟩ := numberPart_cases hall
    refine ⟨c :: ds, List.cons_ne_nil c ds, List.forall_mem_cons.2 ⟨hc, hds⟩, ?_⟩
    rcases hrest with rfl | ⟨more, rfl, hmore⟩
    · exact .inl (by rw [List.append_nil])
    · obtain ⟨fraction, rest, rfl, hfraction, hrest⟩ := numberPart_cases hmore
      refine .inr ⟨fraction, rest, rfl, hfraction, hrest.imp_right ?_⟩
      rintro ⟨more, rfl, -⟩
      exact ⟨more, rfl⟩

namespace Numeral

theorem IsDigits.count_point {ds : List Char} (hds : IsDigits ds) : ds.count '.' = 0 := by
  rw [List.count_eq_zero]
  intro hmem
  cases hds '.' hmem

theorem count_point_dropSign (cs : List Char) : (dropSign cs).count '.' = cs.count '.' := by
  unfold dropSign
  split <;> simp

theorem baseOfLetter?_eq_none {c : Char} (hc : c.isDigit = true ∨ c = '.' ∨ c = '-') :
    baseOfLetter? c = none := by
  unfold baseOfLetter?
  split <;> simp_all

/-- A number is taken apart alike by both readings: into digits, digits after a point, and a rest
that is empty unless there is a second point for it to start with. -/
theorem mantissa_numberText {cs : List Char} (hcs : isNumberText cs = true) :
    ∃ whole fraction rest, whole ≠ [] ∧ IsDigits whole ∧ IsDigits fraction ∧
      mantissa Char.isDigit (dropSign cs) = (whole, fraction, rest) ∧
      isPlainDecimal cs = isPlainPower rest ∧
      (cs.count '.' < 2 ∧ rest = [] ∨ 2 ≤ cs.count '.' ∧ ∃ more, rest = '.' :: more) := by
  rw [← count_point_dropSign]
  obtain ⟨whole, hne, hwhole, hdrop | ⟨fraction, rest, hdrop, hfraction, hrest⟩⟩ :=
    unsignedText_cases (isUnsignedText_dropSign hcs)
  · rw [← List.append_nil whole] at hdrop
    refine ⟨whole, [], [], hne, hwhole, isDigits_nil, ?_, ?_, .inl ⟨?_, rfl⟩⟩
    · rw [hdrop, mantissa_whole hwhole endsDigits_nil (by simp)]
    · rw [isPlainDecimal_whole hdrop hwhole endsDigits_nil (by simp)]
      simp [hne]
    · simp [hdrop, hwhole.count_point]
  · have hends : EndsDigits rest := by
      rcases hrest with rfl | ⟨more, rfl⟩
      · exact endsDigits_nil
      · exact endsDigits_point more
    refine ⟨whole, fraction, rest, hne, hwhole, hfraction, ?_, ?_, ?_⟩
    · rw [hdrop, mantissa_point hwhole hfraction hends]
    · rw [isPlainDecimal_point hdrop hwhole hfraction hends]
      simp [hne]
    · rcases hrest with rfl | ⟨more, rfl⟩
      · exact .inl ⟨by simp [hdrop, hwhole.count_point, hfraction.count_point], rfl⟩
      · exact .inr ⟨by simp [hdrop, hwhole.count_point, hfraction.count_point], more, rfl⟩

theorem isPlainDecimal_numberText {cs : List Char} (hcs : isNumberText cs = true) :
    isPlainDecimal cs = decide (cs.count '.' < 2) := by
  obtain ⟨whole, fraction, rest, -, -, -, -, hplain, ⟨hcount, rfl⟩ | ⟨hcount, more, rfl⟩⟩ :=
    mantissa_numberText hcs
  · rw [hplain, decide_eq_true hcount, isPlainPower]
  · rw [hplain, decide_eq_false (Nat.not_lt.2 hcount)]
    rfl

theorem isSome_decimal?_numberText {cs : List Char} (hcs : isNumberText cs = true) :
    (decimal? (dropSign cs)).isSome = decide (cs.count '.' < 2) := by
  obtain ⟨whole, fraction, rest, hne, hwhole, hfraction, hmantissa, -, hrest⟩ :=
    mantissa_numberText hcs
  rw [decimal?_of_mantissa hmantissa hwhole hfraction (by simp [hne])]
  rcases hrest with ⟨hcount, rfl⟩ | ⟨hcount, more, rfl⟩
  · rw [decide_eq_true hcount]
    rfl
  · rw [decide_eq_false (Nat.not_lt.2 hcount)]
    rfl

end Numeral

/-! ### The two readings -/

theorem trimChars_numberText {cs : List Char} (hcs : isNumberText cs = true) :
    Text.trimChars cs = cs :=
  Text.trimChars_eq_self
    (fun _ hc => isBlank_of_mem_numberText hcs (List.mem_of_mem_head? hc))
    (fun _ hc => isBlank_of_mem_numberText hcs (List.mem_of_mem_getLast? hc))

theorem prefixed?_numberText {cs : List Char} (hcs : isNumberText cs = true) :
    Numeral.prefixed? cs = none := by
  unfold Numeral.prefixed?
  split
  · rename_i letter c rest
    have hletter := mem_numberText hcs (List.mem_cons_of_mem '0' List.mem_cons_self)
    rw [Numeral.baseOfLetter?_eq_none hletter, Option.map_none]
  · rfl

theorem parse?_numberText {s : String} (hs : isNumberText s.toList = true) :
    Numeral.parse? s = (Numeral.decimal? (Numeral.dropSign s.toList)).map
      (.decimal (s.toList.head? = some '-')) := by
  refine Numeral.parse?_of_start ?_ (not_mem_numberText hs (by decide))
    (not_mem_numberText hs (by decide)) (not_mem_numberText hs (by decide))
  intro c hc
  have hunsigned := isUnsignedText_dropSign hs
  cases hdrop : Numeral.dropSign s.toList with
  | nil => simp [hdrop] at hc
  | cons d ds =>
    rw [hdrop] at hc hunsigned
    cases hc
    exact .inl (Bool.and_eq_true_iff.1 hunsigned).1

theorem ofText_numberText {s : String} (hs : isNumberText s.toList = true) :
    Numeral.ofText s = if s.toList.count '.' < 2 then literalValue s else Numeral.nanFloat := by
  have hne : s.toList ≠ [] := by
    intro hnil
    rw [hnil] at hs
    cases hs
  have hlast : s.toList.getLast? ≠ some 'y' := fun hy =>
    not_mem_numberText hs (by decide) (List.mem_of_getLast? hy)
  rw [Numeral.ofText_of_unprefixed (trimChars_numberText hs) hne hlast (prefixed?_numberText hs),
    Numeral.isPlainDecimal_numberText hs]
  simp only [decide_eq_true_eq]

theorem isNaN_literalValue_of_lt {s : String} (hs : isNumberText s.toList = true)
    (hcount : s.toList.count '.' < 2) : (literalValue s).isNaN = false := by
  have hsome := Numeral.isSome_decimal?_numberText hs
  rw [decide_eq_true hcount] at hsome
  obtain ⟨d, hd⟩ := Option.isSome_iff_exists.1 hsome
  have hparse := parse?_numberText hs
  rw [hd, Option.map_some] at hparse
  exact Numeral.isNaN_literalValue_of_decimal hparse

theorem literalValue_of_two_le {s : String} (hs : isNumberText s.toList = true)
    (hcount : 2 ≤ s.toList.count '.') : literalValue s = Numeral.nanFloat := by
  have hnone := Numeral.isSome_decimal?_numberText hs
  rw [decide_eq_false (Nat.not_lt.2 hcount), Option.isSome_eq_false_iff,
    Option.isNone_iff_eq_none] at hnone
  apply Numeral.literalValue_of_none
  rw [parse?_numberText hs, hnone, Option.map_none]

/-- A number in a source and a string with the same text stand for the same number, whatever the
limit of the scan: for none if there are two points or more in it, and else for one. -/
theorem literal_agrees_with_text {limit : Int} {source : String} {ts : List Token}
    (hts : tokenize limit source = .ok ts) {t : Token} (ht : t ∈ ts) (hkind : t.kind = .number) :
    literalValue t.text = Numeral.ofText t.text ∧
    ((literalValue t.text).isNaN = true ↔ 2 ≤ t.text.toList.count '.') ∧
    ∀ m, Eval.atom t m = .done (.ok (.number (Value.string t.text).toNumber)) m := by
  have hnumber : isNumberText t.text.toList = true := by
    simpa [Token.isScanned, Token.isLexeme, Token.isPlain, hkind] using
      isScanned_of_tokenize hts t ht
  have hagree : literalValue t.text = Numeral.ofText t.text := by
    rw [ofText_numberText hnumber]
    split
    · rfl
    · rename_i hcount
      exact literalValue_of_two_le hnumber (Nat.not_lt.1 hcount)
  refine ⟨hagree, ⟨fun hnan => ?_, fun hcount => ?_⟩, fun m => ?_⟩
  · by_contra hcount
    rw [isNaN_literalValue_of_lt hnumber (Nat.not_le.1 hcount)] at hnan
    cases hnan
  · rw [literalValue_of_two_le hnumber hcount, Binary.isNaN_nanFloat]
  · rw [Eval.atom, hkind, Value.toNumber, ← hagree]
    rfl

/-- A number with leading zeros and a point at its end, and one with a sign and two points, before
a third one that the limit cuts off. -/
theorem literal_agrees_with_text_cut_off :
    tokenize 18 "(+ 007. -1.2.3 90" =
      .ok [.opening, .sym "+", ⟨.number, "007."⟩, ⟨.number, "-1.2.3"⟩] ∧
    literalValue "007." = Numeral.ofText "007." ∧ (literalValue "007.").isNaN = false ∧
    literalValue "-1.2.3" = Numeral.ofText "-1.2.3" ∧ (literalValue "-1.2.3").isNaN = true := by
  have hts : tokenize 18 "(+ 007. -1.2.3 90" =
      .ok [.opening, .sym "+", ⟨.number, "007."⟩, ⟨.number, "-1.2.3"⟩] := rfl
  have hseven : (⟨.number, "007."⟩ : Token) ∈
      [.opening, .sym "+", ⟨.number, "007."⟩, ⟨.number, "-1.2.3"⟩] := by decide
  have hone : (⟨.number, "-1.2.3"⟩ : Token) ∈
      [.opening, .sym "+", ⟨.number, "007."⟩, ⟨.number, "-1.2.3"⟩] := by decide
  obtain ⟨hagree, hnan, -⟩ := literal_agrees_with_text hts hseven rfl
  obtain ⟨hagree', hnan', -⟩ := literal_agrees_with_text hts hone rfl
  have hpoint : ¬ 2 ≤ "007.".toList.count '.' := by decide
  exact ⟨hts, hagree, Bool.eq_false_iff.2 fun h => hpoint (hnan.1 h), hagree',
    hnan'.2 (by decide)⟩

end Lisplet
