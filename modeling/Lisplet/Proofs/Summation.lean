import Lisplet.Builtin.Apply
import Mathlib.Data.List.TakeWhile

/-!
# Adding several values

`+` adds numbers as long as there are only numbers. From the first value on that is none, it joins
texts: what has been added so far becomes a text itself, and no number after that is added any more.
All four operations of arithmetic may be stopped after some arguments and go on from the result.

* `leftSum`: numbers added from left to right;
* `foldl_add_numbers`, `foldl_add_text`: the two phases of adding;
* `sum_of_values`: the closed form, and going on from a result.
-/

namespace Lisplet.Value

/-- Whether a value is a number. -/
def isNumber : Value → Bool
  | .number _ => true
  | _ => false

/-- Numbers added from left to right. -/
def leftSum : List Float → Float
  | [] => Binary.ofNat 0
  | x :: xs => xs.foldl (· + ·) x

/-- The position of the first value that is no number. -/
def firstText (args : List Value) : Nat := args.findIdx fun v => !v.isNumber

theorem eq_number_of_isNumber {v : Value} (hv : v.isNumber = true) : v = .number v.toNumber := by
  cases v with
  | number x => rfl
  | _ => cases hv

theorem add_of_not_isNumber {a b : Value} (h : a.isNumber = false ∨ b.isNumber = false) :
    a.add b = .string (a.text ++ b.text) := by
  fun_cases add a b with
  | case1 x y => simp [isNumber] at h
  | case2 => rfl

/-- Numbers are added to a number. -/
theorem foldl_add_numbers {vs : List Value} (hvs : ∀ v ∈ vs, v.isNumber = true) (x : Float) :
    vs.foldl add (.number x) = .number ((vs.map toNumber).foldl (· + ·) x) := by
  induction vs generalizing x with
  | nil => rfl
  | cons v vs ih =>
    obtain ⟨hv, hvs⟩ := List.forall_mem_cons.1 hvs
    rw [List.foldl_cons, eq_number_of_isNumber hv]
    exact ih hvs (x + v.toNumber)

/-- Everything is joined to a text, numbers too. -/
theorem foldl_add_text (s : String) (vs : List Value) :
    vs.foldl add (.string s) = .string (s ++ String.join (vs.map text)) := by
  induction vs generalizing s with
  | nil => simp
  | cons v vs ih =>
    rw [List.foldl_cons, add_of_not_isNumber (.inl rfl), ih, List.map_cons, String.join_cons,
      String.append_assoc]
    rfl

theorem foldArgs_add_numbers {args : List Value} (hne : args ≠ [])
    (hargs : ∀ v ∈ args, v.isNumber = true) :
    foldArgs add args = .number (leftSum (args.map toNumber)) := by
  cases args with
  | nil => exact absurd rfl hne
  | cons v vs =>
    obtain ⟨hv, hvs⟩ := List.forall_mem_cons.1 hargs
    rw [foldArgs, eq_number_of_isNumber hv, foldl_add_numbers hvs]
    rfl

/-- Numbers first, then a value that is none, and then anything. -/
theorem foldArgs_add_text {numbers rest : List Value} {v : Value}
    (hnumbers : ∀ n ∈ numbers, n.isNumber = true) (hv : v.isNumber = false)
    (hlen : 2 ≤ (numbers ++ v :: rest).length) :
    foldArgs add (numbers ++ v :: rest) =
      .string ((if numbers = [] then "" else numberText (leftSum (numbers.map toNumber))) ++
        String.join ((v :: rest).map text)) := by
  cases numbers with
  | nil =>
    cases rest with
    | nil => simp at hlen
    | cons w rest =>
      rw [List.nil_append, foldArgs_cons_cons, add_of_not_isNumber (.inl hv), foldArgs,
        foldl_add_text]
      simp [String.append_assoc]
  | cons n ns =>
    have hsum := foldArgs_add_numbers (List.cons_ne_nil n ns) hnumbers
    rw [foldArgs] at hsum
    rw [List.cons_append, foldArgs, List.foldl_append, hsum, List.foldl_cons,
      add_of_not_isNumber (.inr hv), foldl_add_text, if_neg (List.cons_ne_nil n ns),
      String.append_assoc, ← String.join_cons]
    rfl

/-- An operation may be stopped after some arguments and go on from the result. -/
theorem foldArgs_append (op : Value → Value → Value) {xs : List Value} (hxs : xs ≠ [])
    (ys : List Value) : foldArgs op (xs ++ ys) = foldArgs op (foldArgs op xs :: ys) := by
  cases xs with
  | nil => exact absurd rfl hxs
  | cons x xs => exact List.foldl_append

/-- Arguments that are not all numbers are numbers, a value that is none, and any others. -/
theorem split_at_firstText {args : List Value} (hargs : args.all isNumber = false) :
    ∃ v rest, args.drop (firstText args) = v :: rest ∧ v.isNumber = false ∧
      args = args.take (firstText args) ++ v :: rest ∧
      ∀ n ∈ args.take (firstText args), n.isNumber = true := by
  rw [firstText, ← List.takeWhile_eq_take_findIdx_not, ← List.dropWhile_eq_drop_findIdx_not]
  have hne : args.dropWhile isNumber ≠ [] := by
    intro hnil
    rw [List.all_eq_true.2 (List.dropWhile_eq_nil_iff.1 hnil)] at hargs
    cases hargs
  obtain ⟨v, rest, hdrop⟩ := List.exists_cons_of_ne_nil hne
  refine ⟨v, rest, hdrop, ?_, ?_, fun n hn => List.mem_takeWhile_imp hn⟩
  · have hhead := List.head_dropWhile_not isNumber hne
    simpa only [hdrop, List.head_cons] using hhead
  · rw [← hdrop, List.takeWhile_append_dropWhile]

/-- **Adding several values.** Two or more numbers are added from left to right. If not all values
are numbers, then the sum of those before the first value that is none becomes a text, and the texts
of that value and of all after it are joined to it. Each of the four operations of arithmetic, at
some arguments and more, is that operation at its result for the former and the latter. -/
theorem sum_of_values :
    (∀ args : List Value, 2 ≤ args.length →
      Builtin.add.apply args =
        if args.all isNumber then .number (leftSum (args.map toNumber))
        else .string
          ((if firstText args = 0 then ""
            else numberText (leftSum ((args.take (firstText args)).map toNumber))) ++
          String.join ((args.drop (firstText args)).map text))) ∧
    ∀ op ∈ [Builtin.add, .subtract, .multiply, .divide], ∀ xs ys : List Value, xs ≠ [] →
      op.apply (xs ++ ys) = op.apply (op.apply xs :: ys) := by
  constructor
  · intro args hlen
    have hne : args ≠ [] := List.ne_nil_of_length_pos (by omega)
    split
    · rename_i hall
      exact foldArgs_add_numbers hne (List.all_eq_true.1 hall)
    · rename_i hall
      obtain ⟨v, rest, hdrop, hv, hsplit, hnumbers⟩ :=
        split_at_firstText (Bool.not_eq_true _ ▸ hall)
      have hsum := foldArgs_add_text hnumbers hv (hsplit ▸ hlen)
      rw [← hsplit, ← hdrop] at hsum
      simp only [List.take_eq_nil_iff, hne, or_false] at hsum
      exact hsum
  · intro op hop xs ys hxs
    simp only [List.mem_cons, List.not_mem_nil, or_false] at hop
    rcases hop with rfl | rfl | rfl | rfl <;> exact foldArgs_append _ hxs ys

/-- Two numbers are added, and a number after the first text is not. -/
theorem sum_of_values_around_text :
    let one : Value := .number (Binary.ofNat 1)
    let two : Value := .number (Binary.ofNat 2)
    let args : List Value := [one, two, .string "a", two, .absent, .foreign .number]
    (2 ≤ args.length ∧ Builtin.add.apply args = .string "3a2undefined<number>") ∧
    (Builtin.divide ∈ [Builtin.add, .subtract, .multiply, .divide] ∧ [one, two] ≠ [] ∧
      Builtin.divide.apply ([one, two] ++ [two]) =
        Builtin.divide.apply (Builtin.divide.apply [one, two] :: [two])) := by
  intro one two args
  refine ⟨⟨by decide, ?_⟩, by decide, List.cons_ne_nil _ _,
    sum_of_values.2 _ (by decide) _ _ (List.cons_ne_nil _ _)⟩
  rw [sum_of_values.1 args (by decide), if_neg (by decide)]
  exact congrArg Value.string (by decide +kernel)

end Lisplet.Value
