import Lisplet.Proofs.Repair
import Lisplet.Proofs.Truncation

/-!
# How many tokens there can be

Each token of a source is begun by an attempt to read that begins no other token. The attempts are
counted, and the characters that are looked at twice only make the count larger; so there are no
more tokens than the cap allows attempts, however the scan ends. A cap on reading that is not lower
leaves none of them out.

* `Scan.State.Paid`: every token, finished or begun, has an attempt of its own;
* `Scan.step_paid`, `Scan.length_go`: one character, and a whole source;
* `length_tokenize`: a source has at most as many tokens as the cap on scanning;
* `runUnder_of_tokenize`: all of them are read.
-/

namespace Lisplet

namespace Scan

/-! ### Attempts and tokens -/

/-- The number of tokens that are begun and not finished. -/
def Mode.begun : Mode → Nat
  | .between => 0
  | .run _ _ => 1
  | .string _ _ => 1

/-- There was an attempt to read for every token, and no attempt beyond the cap. -/
structure State.Paid (cap : Nat) (s : State) : Prop where
  tokens : s.tokens.length + s.mode.begun ≤ s.reads
  reads : s.reads ≤ cap

/-- A step that keeps it so. A machine that the cap stops has no more tokens than the cap. -/
def Step.Paid (cap : Nat) : Step → Prop
  | .next s => s.Paid cap
  | .cut s => s.tokens.length ≤ cap
  | .reject _ => True

theorem start_paid {cap : Nat} {s : State} (hs : s.Paid cap) (hm : s.mode = .between) (c : Char)
    (next : Option Char) : (start cap s c next).Paid cap := by
  obtain ⟨mode, reads, tokens⟩ := s
  obtain rfl : mode = .between := hm
  obtain ⟨htokens, hreads⟩ := hs
  simp only [Mode.begun] at htokens hreads
  by_cases hc : cap < reads + 1
  · have hcut : start cap ⟨.between, reads, tokens⟩ c next = .cut ⟨.between, reads + 1, tokens⟩ :=
      if_pos hc
    rw [hcut]
    exact Nat.le_trans htokens hreads
  · simp only [start, State.count, hc, if_false]
    split_ifs
    rotate_right
    · trivial
    -- The character is taken, and pays for the token that it finishes or begins.
    all_goals
      constructor <;> simp only [State.emit, State.become, Mode.begun, List.length_cons] <;> omega

theorem step_paid {cap : Nat} {s : State} (hs : s.Paid cap) (c : Char) (next : Option Char) :
    (step cap s c next).Paid cap := by
  by_cases hc : cap < s.reads + 1
  · -- The cap stops the machine with the tokens it has.
    have htokens : s.tokens.length ≤ cap :=
      Nat.le_trans (Nat.le_of_add_right_le hs.tokens) hs.reads
    obtain ⟨mode, reads, tokens⟩ := s
    cases mode <;> simp only [step, start, State.count, hc, if_true] <;> exact htokens
  · obtain ⟨mode, reads, tokens⟩ := s
    cases mode with
    | between => exact start_paid hs rfl c next
    | run kind text =>
      obtain ⟨htokens, hreads⟩ := hs
      simp only [Mode.begun] at htokens hreads hc
      simp only [step, State.count, hc, if_false]
      split_ifs
      · constructor <;> simp only [State.become, Mode.begun] <;> omega
      · -- The run was paid for when it began; the character that ends it is read once more.
        apply start_paid _ rfl
        constructor <;> simp only [State.emit, Mode.begun, List.length_cons] <;> omega
    | string text escaped =>
      obtain ⟨htokens, hreads⟩ := hs
      simp only [Mode.begun] at htokens hreads hc
      simp only [step, State.count, hc, if_false]
      split_ifs
      all_goals
        constructor <;> simp only [State.emit, State.become, Mode.begun, List.length_cons] <;> omega

/-- However a scan ends, it has no more tokens than the cap. -/
theorem length_go {cap offset : Nat} {s : State} {cs : List Char} {ts : List Token}
    (hs : s.Paid cap) (h : (go cap s offset cs).result = .ok ts) : ts.length ≤ cap := by
  induction cs generalizing s offset with
  | nil =>
    cases h
    obtain ⟨mode, reads, tokens⟩ := s
    obtain ⟨htokens, hreads⟩ := hs
    cases mode <;>
      simp [finish, State.count, State.emit, State.become, Mode.begun] at htokens hreads ⊢ <;> omega
  | cons c cs ih =>
    have hstep := step_paid hs c cs.head?
    rw [go] at h
    cases hs' : step cap s c cs.head? with
    | next s' =>
      rw [hs'] at h hstep
      exact ih hstep h
    | cut s' =>
      rw [hs'] at h hstep
      cases h
      rwa [List.length_reverse]
    | reject s' =>
      rw [hs'] at h
      cases h

end Scan

/-- A source has at most as many tokens as its scan may make attempts to read. -/
theorem length_tokenize {limit : Int} {source : String} {ts : List Token}
    (h : tokenize limit source = .ok ts) : ts.length ≤ effectiveCap limit :=
  Scan.length_go (s := {}) ⟨Nat.le_refl 0, Nat.zero_le _⟩ (Scan.tokens_eq_ok.1 h)

/-! ### Reading all tokens -/

section

variable {limit limit' : Int} {source : String} {ts : List Token}
  (hcap : effectiveCap limit ≤ effectiveCap limit') (h : tokenize limit source = .ok ts)

include hcap h

theorem isCut_of_tokenize : Node.isCut (effectiveCap limit') ts = false :=
  decide_eq_false (Nat.not_lt.2 (Nat.le_trans (length_tokenize h) hcap))

/-- A cap on reading that is not lower than the one on scanning is never reached. -/
theorem runUnder_of_tokenize :
    Reading.runUnder (effectiveCap limit') {} 0 ts = (Reading.run {} ts, false) := by
  have hlen := Nat.le_trans (length_tokenize h) hcap
  rw [Reading.runUnder_eq (Nat.zero_le _), Nat.sub_zero, List.take_of_length_le hlen]
  exact congrArg _ (isCut_of_tokenize hcap h)

theorem ofTokens_of_tokenize :
    Node.ofTokens (effectiveCap limit') ts = .program (Node.forestOf ts) := by
  rw [Node.ofTokens, List.take_of_length_le (Nat.le_trans (length_tokenize h) hcap)]

end

end Lisplet
