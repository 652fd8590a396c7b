import Mathlib.Order.Bounds.Defs
import Lisplet.Proofs.TokenCount

/-!
# Branches that are left open

Two numbers tell how many lists a source leaves open. One counts opening and closing parentheses
with their signs; the other is the number of branches that reading has open at the end, where a
closing parenthesis is ignored if there is nothing to close. The second one cannot fall below zero
on the way, so it is the greatest count over the last parts of the tokens, and both are the same
just if no closing parenthesis is ignored.

* `Token.pending_cases`: what is open at the end was opened after the last stray parenthesis;
* `Token.isGreatest_pending`: the number of open branches as a maximum;
* `Reading.Ignores`: a closing parenthesis that changes nothing;
* `Reading.forest_add_iff`: where a node becomes one of the top level;
* `open_branches_of_source`: the open branches and the open lists of a source.
-/

namespace Lisplet

namespace Token

/-! ### The height and the balance -/

theorem pending_append (height : Nat) (ts us : List Token) :
    pending height (ts ++ us) = pending (pending height ts) us := by
  simp [pending]

theorem heightAfter_of_isStray {height : Nat} {t : Token} (h : t.isStray height = true) :
    height = 0 ∧ t.heightAfter height = 0 ∧ t.nesting = -1 := by
  obtain ⟨hk, hzero⟩ : t.kind = .closeParen ∧ height = 0 := by simpa [isStray] using h
  simp [heightAfter, nesting, hk, hzero]

/-- A token lifts the height by what it adds to the balance, or leaves it at zero. -/
theorem add_nesting_le_heightAfter (height : Nat) (t : Token) :
    (height : Int) + t.nesting ≤ t.heightAfter height := by
  by_cases hs : t.isStray height = true
  · obtain ⟨hzero, hafter, hnesting⟩ := heightAfter_of_isStray hs
    omega
  · exact Int.le_of_eq (heightAfter_of_not_isStray (Bool.eq_false_iff.2 hs)).symm

theorem add_balance_le_pending (height : Nat) (ts : List Token) :
    (height : Int) + balance ts ≤ pending height ts := by
  induction ts generalizing height with
  | nil => simp [pending]
  | cons t ts ih =>
    have hstep := add_nesting_le_heightAfter height t
    have hrest : _ ≤ (pending height (t :: ts) : Int) := ih (t.heightAfter height)
    rw [balance_cons]
    omega

/-- No last part of a list opens more than is open at the end. -/
theorem balance_le_pending {height : Nat} {ts us : List Token} (h : us <:+ ts) :
    balance us ≤ pending height ts := by
  obtain ⟨vs, rfl⟩ := h
  have hlast := add_balance_le_pending (pending height vs) us
  rw [pending_append]
  omega

/-! ### Stray tokens -/

/-- A token of a list closes something although nothing is open then. -/
def HasStray (height : Nat) (ts : List Token) : Prop :=
  ∃ us t vs, ts = us ++ t :: vs ∧ t.isStray (pending height us) = true

/-- Either no token is stray, and the height is lifted by the balance; or what is open at the end
was opened after the last stray token. -/
theorem pending_cases (height : Nat) (ts : List Token) :
    (¬ HasStray height ts ∧ (pending height ts : Int) = height + balance ts) ∨
      ∃ us t vs, ts = us ++ t :: vs ∧ t.isStray (pending height us) = true ∧
        (pending height ts : Int) = balance vs := by
  induction ts generalizing height with
  | nil =>
    refine .inl ⟨?_, by simp [pending]⟩
    rintro ⟨us, t, vs, h, -⟩
    exact absurd h.symm (by simp)
  | cons t ts ih =>
    have hpending : pending height (t :: ts) = pending (t.heightAfter height) ts := rfl
    rcases ih (t.heightAfter height) with ⟨hnone, hrest⟩ | ⟨us, u, vs, rfl, hu, hrest⟩
    · by_cases hs : t.isStray height = true
      · -- The first token is the last stray one.
        obtain ⟨-, hafter, -⟩ := heightAfter_of_isStray hs
        refine .inr ⟨[], t, ts, rfl, hs, ?_⟩
        rw [hpending, hrest, hafter]
        simp
      · refine .inl ⟨?_, ?_⟩
        · rintro ⟨us, u, vs, h, hu⟩
          cases us with
          | nil =>
            cases h
            exact hs hu
          | cons t' us =>
            cases h
            exact hnone ⟨us, u, vs, rfl, hu⟩
        · have hafter := heightAfter_of_not_isStray (Bool.eq_false_iff.2 hs)
          rw [hpending, hrest, hafter, balance_cons]
          omega
    · exact .inr ⟨t :: us, u, vs, rfl, hu, hrest⟩

/-- What is open at the end is the greatest balance of a last part. -/
theorem isGreatest_pending (ts : List Token) :
    IsGreatest {b : Int | ∃ us, us <:+ ts ∧ b = balance us} (pending 0 ts) := by
  constructor
  · rcases pending_cases 0 ts with ⟨-, h⟩ | ⟨us, t, vs, rfl, -, h⟩
    · exact ⟨ts, List.suffix_refl ts, by simpa using h⟩
    · exact ⟨vs, ⟨us ++ [t], by simp⟩, h⟩
  · rintro _ ⟨us, hus, rfl⟩
    exact balance_le_pending hus

/-- The balance falls short of what is open at the end just if there is a stray token. -/
theorem pending_eq_balance_iff (ts : List Token) :
    (pending 0 ts : Int) = balance ts ↔ ¬ HasStray 0 ts := by
  constructor
  · rintro heq ⟨us, t, vs, rfl, ht⟩
    obtain ⟨hzero, -, hnesting⟩ := heightAfter_of_isStray ht
    have hbefore := add_balance_le_pending 0 us
    have hafter : balance vs ≤ pending 0 (us ++ t :: vs) :=
      balance_le_pending ⟨us ++ [t], by simp⟩
    rw [balance_append, balance_cons] at heq
    omega
  · intro hnone
    rcases pending_cases 0 ts with ⟨-, h⟩ | ⟨us, t, vs, hts, ht, -⟩
    · simpa using h
    · exact absurd ⟨us, t, vs, hts, ht⟩ hnone

theorem pending_replicate_closing (height k : Nat) :
    pending height (List.replicate k closing) = height - k := by
  induction k generalizing height with
  | zero => rfl
  | succ k ih =>
    have hpending : pending height (List.replicate (k + 1) closing) =
        pending (height - 1) (List.replicate k closing) := rfl
    rw [hpending, ih]
    omega

end Token

namespace Reading

/-! ### What is ignored -/

/-- A closing token is ignored if reading it changes nothing. -/
def Ignores (r : Reading) (t : Token) : Prop := t.kind = .closeParen ∧ r.step t = r

theorem ignores_iff {r : Reading} {t : Token} : r.Ignores t ↔ t.isStray r.height = true := by
  constructor
  · rintro ⟨hk, hstep⟩
    have hheight := height_step r t
    rw [hstep] at hheight
    simp only [Token.heightAfter, hk] at hheight
    have hzero : r.height = 0 := by omega
    simp [Token.isStray, hk, hzero]
  · intro hs
    have hk : t.kind = .closeParen := of_decide_eq_true (Bool.and_eq_true_iff.1 hs).1
    exact ⟨hk, step_of_isStray hs⟩

theorem ignores_run_iff {us : List Token} {t : Token} :
    (run {} us).Ignores t ↔ t.isStray (Token.pending 0 us) = true := by
  rw [ignores_iff, height_run]
  rfl

/-! ### Where a node is added -/

theorem length_close (inner inner' parent : List Node) (outer : List (List Node)) :
    (close inner (parent :: outer)).length = (close inner' (parent :: outer)).length := by
  induction outer generalizing inner inner' parent with
  | nil => simp [close]
  | cons grand outer ih => exact ih _ _ grand

/-- A node becomes one of the top level just if no branch is open. -/
theorem forest_add_iff (r : Reading) (n : Node) :
    (r.add n).forest = r.forest ++ [n] ↔ r.height = 0 := by
  obtain ⟨inner, outer⟩ := r
  cases outer with
  | nil => simp [add, forest, close, height]
  | cons parent outer =>
    -- A branch that is open takes the node, and the top level has as many nodes as before.
    have hlength := length_close (n :: inner) inner parent outer
    constructor
    · intro h
      have hlength' := congrArg List.length h
      simp only [add, forest, List.length_append, List.length_singleton] at hlength'
      omega
    · intro h
      cases h

end Reading

/-- A token is read as an atom of the top level just if no branch is open before it. -/
theorem Node.forestOf_concat_iff {t : Token} (ht : t.isPlain = true) (ts : List Token) :
    forestOf (ts ++ [t]) = forestOf ts ++ [.atom t] ↔ Token.pending 0 ts = 0 := by
  have hheight : (Reading.run {} ts).height = Token.pending 0 ts := Reading.height_run {} ts
  have hforest : forestOf (ts ++ [t]) = ((Reading.run {} ts).add (.atom t)).forest := by
    rw [forestOf, Reading.run_append, ← Reading.step_of_isPlain ht]
    rfl
  rw [hforest, ← hheight]
  exact Reading.forest_add_iff _ _

/-! ### Sources -/

/-- The number of branches that are open when all of a source is read, under the usual caps; none if
it cannot be scanned. -/
def openBranches (source : String) : Nat :=
  match tokenize 0 source with
  | .ok ts => (Reading.runUnder (effectiveCap 0) {} 0 ts).1.height
  | .error _ => 0

theorem openBranches_of_ok {source : String} {ts : List Token} (h : tokenize 0 source = .ok ts) :
    openBranches source = Token.pending 0 ts := by
  have hrun := runUnder_of_tokenize (Nat.le_refl _) h
  simp only [openBranches, h]
  exact (congrArg (fun p => p.1.height) hrun).trans (Reading.height_run {} ts)

/-- **The branches that a source leaves open.** So many closing tokens are needed, and no fewer, for
a further atom to be one of the top level. Their number is the greatest balance of a last part of
the tokens, so that it is at least the number of open lists, and the same just if no closing token
was ignored. If no list is open, but some branch is, then a closing token was ignored, and all that
is open was opened after it. -/
theorem open_branches_of_source {source : String} {ts : List Token}
    (h : tokenize 0 source = .ok ts) :
    Node.ofSource 0 source = .ok (.program (Node.forestOf ts)) ∧
    (∀ a : Token, a.isPlain = true →
      IsLeast {k | Node.forestOf (ts ++ List.replicate k .closing ++ [a]) =
        Node.forestOf (ts ++ List.replicate k .closing) ++ [.atom a]} (openBranches source)) ∧
    IsGreatest {b : Int | ∃ us, us <:+ ts ∧ b = Token.balance us} (openBranches source) ∧
    openLists source ≤ openBranches source ∧
    ((openBranches source : Int) = openLists source ↔
      ¬ ∃ us t vs, ts = us ++ t :: vs ∧ (Reading.run {} us).Ignores t) ∧
    (openLists source ≤ 0 → 0 < openBranches source →
      ∃ us t vs, ts = us ++ t :: vs ∧ (Reading.run {} us).Ignores t ∧
        (openBranches source : Int) = Token.balance vs) := by
  have htree : Node.ofSource 0 source = .ok (.program (Node.forestOf ts)) := by
    rw [Node.ofSource, h]
    exact congrArg _ (ofTokens_of_tokenize (Nat.le_refl _) h)
  simp only [Reading.ignores_run_iff]
  rw [openBranches_of_ok h, openLists_of_ok rfl h]
  refine ⟨htree, fun a ha => ?_, Token.isGreatest_pending ts,
    Token.balance_le_pending (List.suffix_refl ts), Token.pending_eq_balance_iff ts, ?_⟩
  · have hclosed : ∀ k, Token.pending 0 (ts ++ List.replicate k .closing) = 0 ↔
        Token.pending 0 ts ≤ k := by
      intro k
      rw [Token.pending_append, Token.pending_replicate_closing]
      omega
    simp only [Node.forestOf_concat_iff ha, hclosed]
    exact ⟨Nat.le_refl _, fun k hk => hk⟩
  · intro hlists hbranches
    rcases Token.pending_cases 0 ts with ⟨-, heq⟩ | hstray
    · omega
    · exact hstray

/-- Two closing parentheses that close nothing, and two lists that are not closed. -/
theorem open_branches_of_source_after_strays :
    openLists ")) (a (b" = 0 ∧ openBranches ")) (a (b" = 2 ∧
      ∃ us t vs, [.closing, .closing, .opening, .sym "a", .opening, .sym "b"] = us ++ t :: vs ∧
        (Reading.run {} us).Ignores t ∧ (2 : Int) = Token.balance vs := by
  have h : tokenize 0 ")) (a (b" =
    .ok [.closing, .closing, .opening, .sym "a", .opening, .sym "b"] := rfl
  have hlists : openLists ")) (a (b" = 0 := rfl
  have hbranches : openBranches ")) (a (b" = 2 := rfl
  obtain ⟨-, -, -, -, -, hstray⟩ := open_branches_of_source h
  rw [hlists, hbranches] at hstray
  exact ⟨hlists, hbranches, hstray (by decide) (by decide)⟩

end Lisplet
