import Lisplet.Proofs.NumericText
import Lisplet.Value.Comparison

/-!
# Loose equality

Loose equality turns one operand at a time into a number or a text and then starts again, so that
what is compared in the end depends on the order in which the kinds of the operands are looked at.
It comes to a rule without recursion all the same, and to the same for both orders of the operands.

* `looseEqWithin`: the recursion with a limited number of calls;
* `coercedEq`: the rule without recursion;
* `coercedEq_comm`, `coercedEq_bool`, `coercedEq_of_isCallable`, `coercedEq_text`: the rule takes no
  notice of the order of the operands, nor of their being turned into numbers and texts;
* `loose_equality_coherent`: the two agree.
-/

namespace Lisplet

/-! ### Callables as numbers -/

/-- A text in brackets is not a number. -/
theorem Numeral.ofText_of_bracket {s : String} {cs : List Char}
    (hs : s.toList = '[' :: (cs ++ [']'])) : ofText s = nanFloat := by
  have hlast : s.toList.getLast? = some ']' := by
    rw [hs, ← List.cons_append, List.getLast?_concat]
  have htrim : Text.trimChars s.toList = s.toList := by
    refine Text.trimChars_eq_self (fun c hc => ?_) fun c hc => ?_
    · rw [hs] at hc
      cases hc
      decide
    · rw [hlast] at hc
      cases hc
      decide
  have hplain : isPlainDecimal s.toList = false := by
    have hdrop : dropSign s.toList = [] ++ s.toList := by rw [hs]; rfl
    exact isPlainDecimal_whole hdrop isDigits_nil (by simp [hs, EndsDigits]) (by simp [hs])
  rw [ofText_of_unprefixed htrim (by simp [hs]) (by simp [hlast]) (by rw [hs]; rfl), hplain,
    if_neg (by simp)]

namespace Value

theorem exists_text_of_isCallable {a : Value} (ha : a.isCallable = true) :
    ∃ cs, a.text.toList = '[' :: (cs ++ [']']) := by
  cases a with
  | function f =>
    have htext : "[Function: fn]".toList = '[' :: ("Function: fn".toList ++ [']']) := by decide
    exact ⟨_, htext⟩
  | builtin b => exact ⟨"Function: ".toList ++ b.name.toList, by simp [text]⟩
  | _ => cases ha

theorem toNumber_text_beq {a : Value} (ha : a.isCallable = true) (x : Float) :
    ((Value.string a.text).toNumber == x) = false := by
  obtain ⟨cs, hcs⟩ := exists_text_of_isCallable ha
  rw [toNumber, Numeral.ofText_of_bracket hcs]
  exact Binary.nanFloat_beq x

/-! ### The rules -/

/-- Loose equality with at most a given number of calls, none if they do not suffice. -/
def looseEqWithin : Nat → Value → Value → Option Bool
  | 0, _, _ => none
  | calls + 1, a, b =>
    if a.kind = b.kind then some (strictEq a b)
    else if a.isUndefined || b.isUndefined then some false
    else
      match a, b with
      | .bool x, b => looseEqWithin calls (.number (Value.bool x).toNumber) b
      | a, .bool y => looseEqWithin calls a (.number (Value.bool y).toNumber)
      | a, b =>
        match a.isCallable, b.isCallable with
        | true, true => some false
        | true, false => looseEqWithin calls (.string a.text) b
        | false, true => looseEqWithin calls a (.string b.text)
        | false, false => some (a.toNumber == b.toNumber)

/-- Whether a value is foreign. -/
def isForeign : Value → Bool
  | .foreign _ => true
  | _ => false

/-- Whether a value is a given text. -/
def isText (s : String) : Value → Bool
  | .string t => s == t
  | _ => false

/-- Loose equality without recursion: a foreign value is equal to nothing, values of one kind are
compared as they are, undefined is equal to no other kind, a callable to its text only, and all
other values are compared as numbers. -/
def coercedEq (a b : Value) : Bool :=
  if a.isForeign || b.isForeign then false
  else if a.kind = b.kind then a.strictEq b
  else if a.isUndefined || b.isUndefined then false
  else if a.isCallable then b.isText a.text
  else if b.isCallable then a.isText b.text
  else a.toNumber == b.toNumber

theorem strictEq_comm (a b : Value) : a.strictEq b = b.strictEq a := by
  cases a <;> cases b <;> simp only [strictEq]
  all_goals exact BEq.comm

theorem kind_eq_of_strictEq {a b : Value} (h : a.strictEq b = true) : a.kind = b.kind := by
  cases a <;> cases b <;> simp_all [strictEq, kind]

theorem strictEq_of_isForeign {a b : Value} (h : (a.isForeign || b.isForeign) = true) :
    a.strictEq b = false := by
  cases a <;> cases b <;> simp_all [strictEq, isForeign]

theorem isText_of_isCallable {a : Value} (ha : a.isCallable = true) (s : String) :
    a.isText s = false := by
  cases a <;> simp_all [isText, isCallable]

theorem coercedEq_comm (a b : Value) : a.coercedEq b = b.coercedEq a := by
  have hcallable : (if a.isCallable then b.isText a.text
      else if b.isCallable then a.isText b.text else a.toNumber == b.toNumber) =
      if b.isCallable then a.isText b.text
      else if a.isCallable then b.isText a.text else b.toNumber == a.toNumber := by
    cases ha : a.isCallable <;> cases hb : b.isCallable
    · simp only [Bool.false_eq_true, if_false, BEq.comm (a := b.toNumber)]
    · simp only [Bool.false_eq_true, if_false, if_true]
    · simp only [Bool.false_eq_true, if_false, if_true]
    · simp only [if_true, isText_of_isCallable ha, isText_of_isCallable hb]
  rw [coercedEq, coercedEq, hcallable, strictEq_comm, Bool.or_comm a.isForeign,
    Bool.or_comm a.isUndefined]
  simp only [@eq_comm _ a.kind]

/-- A boolean may be replaced by its number. -/
theorem coercedEq_bool {x : Bool} {b : Value} (hbool : ∀ y, b ≠ .bool y)
    (hundefined : b.isUndefined = false) :
    (Value.bool x).coercedEq b = (Value.number (Value.bool x).toNumber).coercedEq b := by
  cases b with
  | undefined => cases hundefined
  | bool y => exact absurd rfl (hbool y)
  | _ => simp [coercedEq, isForeign, kind, isUndefined, isCallable, isText, strictEq, toNumber]

/-- A callable is equal to its text only. -/
theorem coercedEq_of_isCallable {a b : Value} (ha : a.isCallable = true)
    (hkind : a.kind ≠ b.kind) (hundefined : b.isUndefined = false) :
    a.coercedEq b = b.isText a.text := by
  have hnative : a.isForeign = false ∧ a.isUndefined = false := by
    cases a with
    | function f => exact ⟨rfl, rfl⟩
    | builtin c => exact ⟨rfl, rfl⟩
    | _ => cases ha
  rw [coercedEq, hnative.1, hnative.2, hundefined, if_neg hkind, ha]
  cases b <;> rfl

/-- The text of a callable is equal to that text only, the number of a boolean aside. -/
theorem coercedEq_text {a b : Value} (ha : a.isCallable = true) (hb : b.isCallable = false)
    (hbool : ∀ y, b ≠ .bool y) (hundefined : b.isUndefined = false) :
    (Value.string a.text).coercedEq b = b.isText a.text := by
  have hnumber := toNumber_text_beq ha
  cases b with
  | undefined => cases hundefined
  | bool y => exact absurd rfl (hbool y)
  | function f => cases hb
  | builtin c => cases hb
  | number y => exact hnumber y
  | string t => rfl
  | foreign k => rfl
  | absent => exact hnumber _

theorem toNumber_beq_of_isForeign {a b : Value} (h : (a.isForeign || b.isForeign) = true) :
    (a.toNumber == b.toNumber) = false := by
  rcases Bool.or_eq_true_iff.1 h with ha | hb
  · cases a with
    | foreign k => exact Binary.nanFloat_beq _
    | _ => cases ha
  · cases b with
    | foreign k => exact BEq.comm.trans (Binary.nanFloat_beq _)
    | _ => cases hb

/-- The recursion comes to the rule. -/
theorem looseEq_eq_coercedEq (a b : Value) : a.looseEq b = a.coercedEq b := by
  fun_induction looseEq a b with
  | case1 a b hkind =>
    rw [coercedEq, if_pos hkind]
    split
    · rename_i hforeign
      exact strictEq_of_isForeign hforeign
    · rfl
  | case2 a b hkind hundefined => simp [coercedEq, hkind, hundefined]
  | case3 x b hkind hdefined ih =>
    have hb : b.isUndefined = false := by simpa [isUndefined] using hdefined
    rw [ih, coercedEq_bool (fun y hy => hkind (by rw [hy]; rfl)) hb]
  | case4 a y hbool hkind hdefined ih =>
    have ha : a.isUndefined = false := by simpa [isUndefined] using hdefined
    rw [ih, coercedEq_comm a, coercedEq_comm a, coercedEq_bool hbool ha]
  | case5 a b hbool hbool' ha hb hkind hdefined =>
    rw [Bool.not_eq_true, Bool.or_eq_false_iff] at hdefined
    rw [coercedEq_of_isCallable ha hkind hdefined.2, isText_of_isCallable hb]
  | case6 a b hbool hbool' ha hb hkind hdefined ih =>
    rw [Bool.not_eq_true, Bool.or_eq_false_iff] at hdefined
    rw [ih, coercedEq_text ha hb hbool' hdefined.2, coercedEq_of_isCallable ha hkind hdefined.2]
  | case7 a b hbool hbool' ha hb hkind hdefined ih =>
    rw [Bool.not_eq_true, Bool.or_eq_false_iff] at hdefined
    rw [ih, coercedEq_comm a, coercedEq_comm a, coercedEq_text hb ha hbool hdefined.1,
      coercedEq_of_isCallable hb (Ne.symm hkind) hdefined.1]
  | case8 a b hbool hbool' ha hb hkind hdefined =>
    rw [coercedEq, if_neg hkind, if_neg hdefined, ha, hb]
    split
    · rename_i hforeign
      exact toNumber_beq_of_isForeign hforeign
    · rfl

/-! ### The number of calls -/

theorem turns_le_one (a : Value) : a.turns ≤ 1 := by
  cases a <;> simp [turns]

theorem turns_of_isCallable {a : Value} (ha : a.isCallable = true) : a.turns = 1 := by
  cases a with
  | function f => rfl
  | builtin c => rfl
  | _ => cases ha

/-- One call and one more for each turn. -/
theorem looseEqWithin_of_lt {calls : Nat} {a b : Value} (hcalls : a.turns + b.turns < calls) :
    looseEqWithin calls a b = some (a.looseEq b) := by
  induction calls generalizing a b with
  | zero => exact absurd hcalls (Nat.not_lt_zero _)
  | succ calls ih =>
    fun_cases looseEq a b with
    | case1 a b hkind => simp [looseEqWithin, hkind]
    | case2 a b hkind hundefined => simp [looseEqWithin, hkind, hundefined]
    | case3 x b hkind hdefined =>
      have hturns : 1 + b.turns < calls + 1 := hcalls
      have hrest := @ih (.number (Value.bool x).toNumber) b (by show 0 + b.turns < calls; omega)
      simp [looseEqWithin, hkind, hdefined, hrest]
    | case4 a y hbool hkind hdefined =>
      have hturns : a.turns + 1 < calls + 1 := hcalls
      have hrest := @ih a (.number (Value.bool y).toNumber) (by show a.turns + 0 < calls; omega)
      simp [looseEqWithin, hkind, hdefined, hrest]
    | case5 a b hbool hbool' ha hb hkind hdefined =>
      simp [looseEqWithin, hkind, hdefined, ha, hb]
    | case6 a b hbool hbool' ha hb hkind hdefined =>
      have hturns := turns_of_isCallable ha
      have hrest := @ih (.string a.text) b (by show 0 + b.turns < calls; omega)
      simp [looseEqWithin, hkind, hdefined, ha, hb, hrest]
    | case7 a b hbool hbool' ha hb hkind hdefined =>
      have hturns := turns_of_isCallable hb
      have hrest := @ih a (.string b.text) (by show a.turns + 0 < calls; omega)
      simp [looseEqWithin, hkind, hdefined, ha, hb, hrest]
    | case8 a b hbool hbool' ha hb hkind hdefined =>
      simp [looseEqWithin, hkind, hdefined, ha, hb]

/-! ### Coherence -/

/-- **Loose equality is coherent.** Three calls are enough for any two values. Neither equality
takes notice of the order of the operands, what is strictly equal is loosely equal, and loose
equality comes to a rule without recursion. -/
theorem loose_equality_coherent (a b : Value) :
    (∀ calls, looseEqWithin (calls + 3) a b = some (a.looseEq b)) ∧
    a.looseEq b = b.looseEq a ∧
    (a.strictEq b = true → a.looseEq b = true) ∧
    a.strictEq b = b.strictEq a ∧
    a.looseEq b = a.coercedEq b := by
  refine ⟨fun calls => ?_, ?_, fun h => ?_, strictEq_comm a b, looseEq_eq_coercedEq a b⟩
  · have ha := a.turns_le_one
    have hb := b.turns_le_one
    exact looseEqWithin_of_lt (by omega)
  · rw [looseEq_eq_coercedEq, coercedEq_comm, ← looseEq_eq_coercedEq]
  · unfold looseEq
    rw [if_pos (kind_eq_of_strictEq h), h]

/-- A callable and its text, and that text and itself. -/
theorem loose_equality_coherent_of_text :
    let sum : Value := .builtin .add
    let name : Value := .string "[Function: +]"
    sum.strictEq name = false ∧ sum.looseEq name = true ∧ name.looseEq sum = true ∧
      name.strictEq name = true ∧ name.looseEq name = true := by
  intro sum name
  obtain ⟨-, hcomm, -, -, hrule⟩ := loose_equality_coherent sum name
  have htext : sum.coercedEq name = true := by decide
  have hself : name.strictEq name = true := by decide
  exact ⟨rfl, hrule.trans htext, hcomm.symm.trans (hrule.trans htext), hself,
    (loose_equality_coherent name name).2.2.1 hself⟩

end Value

end Lisplet
