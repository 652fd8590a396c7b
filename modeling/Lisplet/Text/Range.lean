/-!
# Membership in a table of ranges

Character classes are given as ascending lists of closed ranges of code points.
-/

namespace Lisplet.Text

/-- Whether `n` lies in one of the closed ranges. The ranges ascend, so the search stops at the
first one that ends at or after `n`. -/
def within : List (Nat × Nat) → Nat → Bool
  | [], _ => false
  | (first, last) :: ranges, n => if n ≤ last then first ≤ n else within ranges n

@[simp] theorem within_nil (n : Nat) : within [] n = false := rfl

theorem within_cons_of_le {first last n : Nat} (ranges : List (Nat × Nat)) (h : n ≤ last) :
    within ((first, last) :: ranges) n = decide (first ≤ n) := by
  simp [within, h]

theorem within_cons_of_lt {first last n : Nat} (ranges : List (Nat × Nat)) (h : last < n) :
    within ((first, last) :: ranges) n = within ranges n := by
  simp [within, Nat.not_le.2 h]

end Lisplet.Text
