import Mathlib.Data.List.Basic
import Mathlib.Data.List.TakeWhile
import Lisplet.Text.Blank

/-!
# Texts without the white space around them

* `IsTrimmed`: what is left of a text when the white space at its ends is dropped;
* `isTrimmed_trim`, `trim_trim`: that is what is done, and doing it again changes nothing;
* `isBlankText_iff`: the texts of which nothing is left.
-/

namespace Lisplet.Text

theorem isBlank_of_isDigit {c : Char} (hc : c.isDigit = true) : isBlank c = false := by
  obtain ⟨hge, hle⟩ := Char.isDigit_iff_toNat.1 hc
  have h₁ : 48 ≤ c.toNat := hge
  have h₂ : c.toNat ≤ 57 := hle
  simp only [isBlank, Bool.or_eq_false_iff, Bool.and_eq_false_iff, decide_eq_false_iff_not,
    beq_eq_false_iff_ne]
  omega

/-- Text without white space at its ends. -/
theorem trimChars_eq_self {cs : List Char} (hfirst : ∀ c ∈ cs.head?, isBlank c = false)
    (hlast : ∀ c ∈ cs.getLast?, isBlank c = false) : trimChars cs = cs := by
  have hdrop : ∀ ds : List Char, (∀ c ∈ ds.head?, isBlank c = false) →
      ds.dropWhile isBlank = ds := by
    intro ds hds
    cases ds with
    | nil => rfl
    | cons d ds => exact List.dropWhile_cons_of_neg (by simp [hds d rfl])
  rw [trimChars, hdrop cs hfirst, hdrop cs.reverse (by rwa [List.head?_reverse]),
    List.reverse_reverse]

/-- A text with nothing but white space in it. -/
def Blank (s : String) : Prop := ∀ c ∈ s.toList, isBlank c = true

/-- `t` is what is left of `s` when the white space at its ends is dropped. -/
structure IsTrimmed (s t : String) : Prop where
  exists_ends : ∃ before after, s.toList = before ++ t.toList ++ after ∧
    ∀ c ∈ before ++ after, isBlank c = true
  first : ∀ c ∈ t.toList.head?, isBlank c = false
  last : ∀ c ∈ t.toList.getLast?, isBlank c = false

theorem head?_dropWhile_isBlank (cs : List Char) :
    ∀ c ∈ (cs.dropWhile isBlank).head?, isBlank c = false := by
  intro c hc
  have h := List.head?_dropWhile_not isBlank cs
  rw [Option.mem_def.1 hc] at h
  exact h

/-- Dropping white space splits it off at both ends. -/
theorem exists_trimChars (cs : List Char) : ∃ before after,
    cs = before ++ (trimChars cs ++ after) ∧ (∀ c ∈ before ++ after, isBlank c = true) ∧
      cs.dropWhile isBlank = trimChars cs ++ after := by
  have hrest : cs.dropWhile isBlank =
      trimChars cs ++ ((cs.dropWhile isBlank).reverse.takeWhile isBlank).reverse := by
    rw [trimChars, ← List.reverse_append, List.takeWhile_append_dropWhile, List.reverse_reverse]
  refine ⟨cs.takeWhile isBlank, _, ?_, ?_, hrest⟩
  · rw [← hrest, List.takeWhile_append_dropWhile]
  · intro c hc
    rcases List.mem_append.1 hc with hc | hc
    · exact List.mem_takeWhile_imp hc
    · exact List.mem_takeWhile_imp (List.mem_reverse.1 hc)

@[simp] theorem toList_trim (s : String) : (trim s).toList = trimChars s.toList :=
  String.toList_ofList

theorem isTrimmed_trim (s : String) : IsTrimmed s (trim s) := by
  obtain ⟨before, after, hsplit, hblank, hrest⟩ := exists_trimChars s.toList
  refine ⟨⟨before, after, ?_, hblank⟩, fun c hc => ?_, fun c hc => ?_⟩
  · rw [toList_trim, List.append_assoc, ← hsplit]
  · refine head?_dropWhile_isBlank s.toList c ?_
    rw [toList_trim] at hc
    rw [hrest]
    exact List.mem_head?_append_of_mem_head? hc
  · rw [toList_trim, trimChars, List.getLast?_reverse] at hc
    exact head?_dropWhile_isBlank _ c hc

theorem trim_trim (s : String) : trim (trim s) = trim s := by
  have h := isTrimmed_trim s
  rw [trim, trimChars_eq_self h.first h.last, String.ofList_toList]

theorem trim_eq_empty_iff {s : String} : trim s = "" ↔ Blank s := by
  obtain ⟨before, after, hsplit, hblank⟩ := (isTrimmed_trim s).exists_ends
  constructor
  · intro hempty c hc
    rw [hsplit, hempty] at hc
    exact hblank c (by simpa using hc)
  · intro hs
    have hdrop : s.toList.dropWhile isBlank = [] := List.dropWhile_eq_nil_iff.2 hs
    rw [trim, trimChars, hdrop]
    rfl

theorem isBlankText_iff {s : String} : isBlankText s = true ↔ Blank s := by
  rw [isBlankText, String.isEmpty_iff, trim_eq_empty_iff]

theorem blank_trim_iff {s : String} : Blank (trim s) ↔ Blank s := by
  rw [← trim_eq_empty_iff, trim_trim, trim_eq_empty_iff]

theorem isBlankText_trim (s : String) : isBlankText (trim s) = isBlankText s := by
  rw [isBlankText, trim_trim, ← isBlankText]

end Lisplet.Text
