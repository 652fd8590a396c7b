import Mathlib.Data.List.Lex
import Lisplet.Builtin.Apply

/-!
# The order of texts

Two texts are compared byte by byte, and what is compared are the bytes that encode their
characters, one to four for each. The encoding keeps the order: of two characters, the one with the
lower code point has the lower byte at the first place where their encodings differ, and there is
such a place. So texts are ordered as the sequences of their code points are, and the comparisons
of the language are those of a total order.

* `Text.bytes_eq_flatMap`: the bytes of a text, character by character;
* `Text.lex_encode`, `Text.lex_bytes_iff`: the order of the bytes and that of the code points;
* `textLess_trans`, `textLess_asymm`, `textLess_cases`: the laws of a total order;
* `Builtin.texts_totally_ordered`: the comparisons of texts.
-/

namespace Lisplet

namespace Text

/-! ### The bytes of a text -/

theorem toList_loop (bs : ByteArray) (i : Nat) (r : List UInt8) :
    ByteArray.toList.loop bs i r = r.reverse ++ bs.data.toList.drop i := by
  fun_induction ByteArray.toList.loop bs i r with
  | case1 i r h ih =>
    have hdrop : bs.data.toList.drop i = bs.get! i :: bs.data.toList.drop (i + 1) := by
      simpa [ByteArray.get!, h] using List.drop_eq_getElem_cons (l := bs.data.toList) h
    simp [ih, hdrop]
  | case2 i r h =>
    have hdrop : bs.data.toList.drop i = [] := List.drop_eq_nil_of_le (Nat.not_lt.1 h)
    simp [hdrop]

/-- The bytes of a text are those of its characters. -/
theorem bytes_eq_flatMap (s : String) : bytes s = s.toList.flatMap String.utf8EncodeChar := by
  have hencode : s.toUTF8 = (s.toList.flatMap String.utf8EncodeChar).toByteArray :=
    String.utf8Encode_toList.symm
  rw [bytes, ByteArray.toList, toList_loop, hencode]
  simp

/-! ### The order of characters -/

/-- The code points of a text. -/
def codePoints (s : String) : List Nat := s.toList.map Char.toNat

/-- The encoding of a character comes before that of a higher one, whatever follows them. -/
theorem lex_encode {c d : Char} (h : c.toNat < d.toNat) (as bs : List UInt8) :
    List.Lex (· < ·) (String.utf8EncodeChar c ++ as) (String.utf8EncodeChar d ++ bs) := by
  have hd : d.toNat < 0x110000 := by
    rcases d.valid with hd | hd
    · exact Nat.lt_trans hd (by decide)
    · exact hd.2
  simp only [String.utf8EncodeChar, Char.toNat_val]
  -- If the lengths differ, the longer encoding has the higher first byte. If not, the payloads of
  -- the bytes are the digits of the code points.
  split_ifs <;>
    simp (disch := omega) only [List.cons_append, List.nil_append, List.cons_lex_cons_iff,
      UInt8.lt_iff_toNat_lt, ← UInt8.toNat_inj, UInt8.toNat_ofNat', Nat.mod_eq_of_lt] <;> omega

/-- Lists that begin alike are ordered as what follows. -/
theorem lex_append_iff (cs as bs : List UInt8) :
    List.Lex (· < ·) (cs ++ as) (cs ++ bs) ↔ List.Lex (· < ·) as bs := by
  induction cs with
  | nil => rfl
  | cons c cs ih => simp [List.cons_lex_cons_iff, ih]

theorem lex_flatMap_iff (cs ds : List Char) :
    List.Lex (· < ·) (cs.flatMap String.utf8EncodeChar) (ds.flatMap String.utf8EncodeChar) ↔
      List.Lex (· < ·) (cs.map Char.toNat) (ds.map Char.toNat) := by
  induction cs generalizing ds with
  | nil =>
    cases ds with
    | nil => simp
    | cons d ds =>
      obtain ⟨a, as, hd⟩ := List.exists_cons_of_ne_nil (String.utf8EncodeChar_ne_nil (c := d))
      simp [hd]
  | cons c cs ih =>
    cases ds with
    | nil => simp
    | cons d ds =>
      simp only [List.flatMap_cons, List.map_cons, List.cons_lex_cons_iff]
      rcases Nat.lt_trichotomy c.toNat d.toNat with h | h | h
      · simp [h, lex_encode h]
      · obtain rfl : c = d := Char.toNat_inj.1 h
        simp only [lex_append_iff, ih, Nat.lt_irrefl, false_or, true_and]
      · -- The encoding of the second character comes first, so that of the first one does not.
        have hgreater := lex_encode h (ds.flatMap String.utf8EncodeChar)
          (cs.flatMap String.utf8EncodeChar)
        have hnot := List.lex_asymm (fun h => UInt8.lt_asymm h) hgreater
        simp only [hnot, false_iff]
        omega

/-- Texts are ordered by their bytes as they are by their code points. -/
theorem lex_bytes_iff (s t : String) :
    List.Lex (· < ·) (bytes s) (bytes t) ↔ List.Lex (· < ·) (codePoints s) (codePoints t) := by
  rw [bytes_eq_flatMap, bytes_eq_flatMap]
  exact lex_flatMap_iff s.toList t.toList

theorem codePoints_inj {s t : String} : codePoints s = codePoints t ↔ s = t := by
  constructor
  · intro h
    exact String.toList_inj.1 (List.map_injective_iff.2 (fun _ _ => Char.toNat_inj.1) h)
  · rintro rfl
    rfl

end Text

/-! ### The order of texts -/

theorem bytesLess_iff {as bs : List UInt8} :
    bytesLess as bs = true ↔ List.Lex (· < ·) as bs := by
  induction as generalizing bs with
  | nil => cases bs <;> simp [bytesLess]
  | cons a as ih => cases bs <;> simp [bytesLess, ih, List.cons_lex_cons_iff]

section

variable {s t u : String}

theorem textLess_iff :
    textLess s t = true ↔ List.Lex (· < ·) (Text.codePoints s) (Text.codePoints t) := by
  rw [textLess, bytesLess_iff, Text.lex_bytes_iff]

theorem textLess_trans (h : textLess s t = true) (h' : textLess t u = true) :
    textLess s u = true := by
  rw [textLess_iff] at h h' ⊢
  exact List.lex_trans Nat.lt_trans h h'

theorem textLess_asymm (h : textLess s t = true) : textLess t s = false := by
  rw [← Bool.not_eq_true]
  rw [textLess_iff] at h ⊢
  exact List.lex_asymm Nat.lt_asymm h

theorem textLess_self (s : String) : textLess s s = false := by
  rw [← Bool.not_eq_true, textLess_iff]
  exact List.lex_irrefl Nat.lt_irrefl _

theorem eq_of_not_textLess (h : textLess s t = false) (h' : textLess t s = false) : s = t := by
  rw [← Bool.not_eq_true, textLess_iff] at h h'
  refine Text.codePoints_inj.1 (List.lex_trichotomous (fun m n hmn hnm => ?_) h' h)
  omega

/-- Of two texts, one is less than the other, or they are the same. -/
theorem textLess_cases (s t : String) :
    (textLess s t = true ∧ (s == t) = false ∧ textLess t s = false) ∨
      (textLess s t = false ∧ (s == t) = true ∧ textLess t s = false) ∨
      (textLess s t = false ∧ (s == t) = false ∧ textLess t s = true) := by
  by_cases hst : s = t
  · subst hst
    simp [textLess_self]
  · cases hless : textLess s t with
    | true => simp [hst, textLess_asymm hless]
    | false =>
      cases hgreater : textLess t s with
      | true => simp [hst]
      | false => exact absurd (eq_of_not_textLess hless hgreater) hst

end

namespace Builtin

/-! ### Comparisons -/

/-- Whether a comparison of two texts is true. -/
def onTexts (b : Builtin) (s t : String) : Bool := (b.apply [.string s, .string t]).isTrue

/-- **Texts are totally ordered.** Comparing two texts gives a boolean. Just one of less, equal and
greater is true; less or equal is either of the two, and the same as greater or equal the other way
round; less is transitive. The order is that of the bytes, and it is the lexicographic order of the
code points. -/
theorem texts_totally_ordered (s t u : String) :
    (∀ b ∈ [less, lessEqual, greater, greaterEqual, strictEqual],
      b.apply [.string s, .string t] = .bool (b.onTexts s t)) ∧
    [less, strictEqual, greater].countP (·.onTexts s t) = 1 ∧
    lessEqual.onTexts s t = (less.onTexts s t || strictEqual.onTexts s t) ∧
    greaterEqual.onTexts s t = lessEqual.onTexts t s ∧
    (less.onTexts s t = true → less.onTexts t u = true → less.onTexts s u = true) ∧
    (less.onTexts s t = true ↔ List.Lex (· < ·) (Text.bytes s) (Text.bytes t)) ∧
    (less.onTexts s t = true ↔
      List.Lex (· < ·) (Text.codePoints s) (Text.codePoints t)) := by
  have hless : ∀ s t, less.onTexts s t = textLess s t := fun _ _ => rfl
  have hgreater : greater.onTexts s t = textLess t s := rfl
  have hequal : strictEqual.onTexts s t = (s == t) := rfl
  have hlessEqual : lessEqual.onTexts s t = !textLess t s := rfl
  refine ⟨by simp [apply, compare, onTexts, Value.isTrue], ?_, ?_, rfl, ?_, ?_, ?_⟩
  · simp only [List.countP_cons, List.countP_nil, hless, hequal, hgreater]
    rcases textLess_cases s t with ⟨h₁, h₂, h₃⟩ | ⟨h₁, h₂, h₃⟩ | ⟨h₁, h₂, h₃⟩ <;>
      simp only [h₁, h₂, h₃] <;> rfl
  · rw [hlessEqual, hless, hequal]
    rcases textLess_cases s t with ⟨h₁, h₂, h₃⟩ | ⟨h₁, h₂, h₃⟩ | ⟨h₁, h₂, h₃⟩ <;>
      simp only [h₁, h₂, h₃] <;> rfl
  · simp only [hless]
    exact textLess_trans
  · exact bytesLess_iff
  · exact textLess_iff

/-- Texts whose last characters are encoded by two, three and four bytes. -/
theorem texts_totally_ordered_across_lengths :
    less.onTexts "aé" "a\uFFFD" = true ∧ less.onTexts "a\uFFFD" "a😀" = true ∧
      less.onTexts "aé" "a😀" = true ∧
      greater.apply [.string "aé", .string "a😀"] = .bool (greater.onTexts "aé" "a😀") := by
  obtain ⟨-, -, -, -, htrans, -, hfirst⟩ := texts_totally_ordered "aé" "a\uFFFD" "a😀"
  obtain ⟨-, -, -, -, -, -, hsecond⟩ := texts_totally_ordered "a\uFFFD" "a😀" ""
  have h₁ : less.onTexts "aé" "a\uFFFD" = true := hfirst.2 (.cons (.rel (by decide)))
  have h₂ : less.onTexts "a\uFFFD" "a😀" = true := hsecond.2 (.cons (.rel (by decide)))
  exact ⟨h₁, h₂, htrans h₁ h₂, (texts_totally_ordered "aé" "a😀" "").1 greater (by decide)⟩

end Builtin

end Lisplet
