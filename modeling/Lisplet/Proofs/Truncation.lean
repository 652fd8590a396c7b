import Mathlib.Data.List.Infix
import Mathlib.Tactic.SplitIfs
import Lisplet.Proofs.Lexer

/-!
# Lower caps

A cap that is too low for a source takes something away from the end and changes nothing before.
Two scans of one source with different caps go side by side until the lower cap stops one of them;
the tokens finished by then are finished in the other scan as well, and the token that was being
read is not among them. Likewise a tree that is read from fewer tokens has the same nodes, but for
the last one, which may have been left open.

* `Scan.step_cap`, `Scan.go_cap`: two caps, for one character and for a whole source;
* `Reading.runUnder`: reading one token at a time, each attempt counted;
* `Reading.settled`: the nodes of the top level that no further token can change;
* `lower_cap_removes_from_end`: what a lower cap does to tokens and trees.
-/

namespace Lisplet

namespace Scan

/-! ### Finished tokens stay -/

/-- The state that a step leaves. -/
def Step.state : Step → State
  | .next s => s
  | .cut s => s
  | .reject s => s

theorem tokens_suffix_start (cap : Nat) (s : State) (c : Char) (next : Option Char) :
    s.tokens <:+ (start cap s c next).state.tokens := by
  simp only [start]
  split_ifs <;> simp [Step.state, State.count, State.emit, State.become]

theorem tokens_suffix_step (cap : Nat) (s : State) (c : Char) (next : Option Char) :
    s.tokens <:+ (step cap s c next).state.tokens := by
  obtain ⟨mode, reads, tokens⟩ := s
  cases mode with
  | between => exact tokens_suffix_start cap _ c next
  | run kind text =>
    simp only [step]
    split_ifs
    · exact List.suffix_refl _
    · exact List.suffix_refl _
    · have hstart := tokens_suffix_start cap
        (State.emit ⟨.run kind text, reads + 1, tokens⟩ kind.kind text) c next
      exact (List.suffix_cons _ tokens).trans hstart
  | string text escaped =>
    simp only [step]
    split_ifs <;> simp [Step.state, State.count, State.emit, State.become]

/-- A scan begins with the tokens that were finished before. -/
theorem tokens_prefix_go {cap offset : Nat} {s : State} {cs : List Char} {ts : List Token}
    (h : (go cap s offset cs).result = .ok ts) : s.tokens.reverse <+: ts := by
  induction cs generalizing s offset with
  | nil =>
    cases h
    rw [List.reverse_prefix]
    obtain ⟨mode, reads, tokens⟩ := s
    cases mode <;> simp [finish, State.count, State.emit, State.become]
  | cons c cs ih =>
    have hstep := tokens_suffix_step cap s c cs.head?
    rw [go] at h
    cases hs : step cap s c cs.head? with
    | next s' =>
      rw [hs] at h hstep
      exact (List.reverse_prefix.2 hstep).trans (ih h)
    | cut s' =>
      rw [hs] at h hstep
      cases h
      exact List.reverse_prefix.2 hstep
    | reject s' =>
      rw [hs] at h
      cases h

/-! ### Two caps side by side -/

theorem start_cap {m n : Nat} (h : m ≤ n) (s : State) (c : Char) (next : Option Char) :
    start m s c next = start n s c next ∨
      ∃ s', start m s c next = .cut s' ∧ s'.tokens = s.tokens := by
  by_cases hm : m < s.reads + 1
  · exact .inr ⟨s.count, if_pos hm, rfl⟩
  · have hn : ¬ n < s.reads + 1 := by omega
    exact .inl (by simp only [start, State.count, hm, hn, if_false])

/-- Two caps make a difference only if the lower one stops the machine. Whatever tokens are
finished then are finished with the higher cap, too. -/
theorem step_cap {m n : Nat} (h : m ≤ n) (s : State) (c : Char) (next : Option Char) :
    step m s c next = step n s c next ∨
      ∃ s', step m s c next = .cut s' ∧ s'.tokens <:+ (step n s c next).state.tokens := by
  by_cases hm : m < s.reads + 1
  · -- The lower cap is reached before the character is looked at, so no token is finished.
    have hn := tokens_suffix_step n s c next
    obtain ⟨mode, reads, tokens⟩ := s
    right
    cases mode <;> exact ⟨_, if_pos hm, hn⟩
  · have hn : ¬ n < s.reads + 1 := by omega
    obtain ⟨mode, reads, tokens⟩ := s
    cases mode with
    | between => exact .inl (by simp only [step, start, State.count, hm, hn, if_false])
    | string text escaped => exact .inl (by simp only [step, State.count, hm, hn, if_false])
    | run kind text =>
      by_cases hk : kind.accepts c
      · exact .inl (by simp only [step, State.count, hm, hn, hk, if_false, if_true])
      · -- The run is finished, and the cap is looked at again before what follows it.
        have hrun : ∀ cap, ¬ cap < reads + 1 → step cap ⟨.run kind text, reads, tokens⟩ c next =
            start cap (State.emit ⟨.run kind text, reads + 1, tokens⟩ kind.kind text) c next := by
          intro cap hcap
          simp [step, State.count, hcap, hk]
        rw [hrun m hm, hrun n hn]
        rcases start_cap h (State.emit ⟨.run kind text, reads + 1, tokens⟩ kind.kind text) c next
          with he | ⟨s', hs', ht⟩
        · exact .inl he
        · exact .inr ⟨s', hs', ht ▸ tokens_suffix_start n _ c next⟩

/-- Two scans of one source: they are the same, or the one with the lower cap is truncated and has
found the first tokens of the other one. -/
theorem go_cap {m n : Nat} (h : m ≤ n) (s : State) (offset : Nat) (cs : List Char) :
    go m s offset cs = go n s offset cs ∨
      (go m s offset cs).truncated = true ∧
        ∃ ts, (go m s offset cs).result = .ok ts ∧
          ∀ us, (go n s offset cs).result = .ok us → ts <+: us := by
  induction cs generalizing s offset with
  | nil => exact .inl rfl
  | cons c cs ih =>
    rw [go, go]
    rcases step_cap h s c cs.head? with he | ⟨s', hs', ht⟩
    · rw [he]
      cases step n s c cs.head? with
      | next s' => exact ih s' (offset + 1)
      | cut s' => exact .inl rfl
      | reject s' => exact .inl rfl
    · rw [hs']
      refine .inr ⟨rfl, _, rfl, fun us hus => ?_⟩
      cases hn : step n s c cs.head? with
      | next s'' =>
        rw [hn] at hus ht
        exact (List.reverse_prefix.2 ht).trans (tokens_prefix_go hus)
      | cut s'' =>
        rw [hn] at hus ht
        cases hus
        exact List.reverse_prefix.2 ht
      | reject s'' =>
        rw [hn] at hus
        cases hus

/-- A scan that the cap cuts short does not fail. -/
theorem result_of_truncated {cap offset : Nat} {s : State} {cs : List Char}
    (h : (go cap s offset cs).truncated = true) : ∃ ts, (go cap s offset cs).result = .ok ts := by
  induction cs generalizing s offset with
  | nil => exact ⟨_, rfl⟩
  | cons c cs ih =>
    rw [go] at h ⊢
    cases hs : step cap s c cs.head? with
    | next s' =>
      rw [hs] at h
      exact ih h
    | cut s' => exact ⟨_, rfl⟩
    | reject s' =>
      rw [hs] at h
      cases h

end Scan

/-! ### Reading one token at a time -/

namespace Reading

/-- Take tokens one at a time and count the attempts. The attempt that would exceed the cap stops
the reading, and it is cut short if tokens are left then. -/
def runUnder (cap : Nat) : Reading → Nat → List Token → Reading × Bool
  | r, _, [] => (r, false)
  | r, reads, t :: ts =>
    if cap < reads + 1 then (r, true) else runUnder cap (r.step t) (reads + 1) ts

theorem runUnder_eq {cap reads : Nat} (h : reads ≤ cap) (r : Reading) (ts : List Token) :
    runUnder cap r reads ts =
      (r.run (ts.take (cap - reads)), decide (cap - reads < ts.length)) := by
  induction ts generalizing r reads with
  | nil => simp [runUnder, run]
  | cons t ts ih =>
    rw [runUnder]
    split_ifs with hc
    · have hzero : cap - reads = 0 := by omega
      simp [hzero, run]
    · obtain ⟨k, hk⟩ : ∃ k, cap - reads = k + 1 := ⟨cap - reads - 1, by omega⟩
      have hk' : cap - (reads + 1) = k := by omega
      rw [ih (by omega), hk, hk']
      simp [run]

/-! ### Nodes that are settled -/

/-- The nodes of the outermost of some open branches, newest first. -/
def outermost : List Node → List (List Node) → List Node
  | inner, [] => inner
  | _, parent :: outer => outermost parent outer

/-- The nodes of the top level, but for the branch that is open there. -/
def settled (r : Reading) : List Node := (outermost r.inner r.outer).reverse

theorem outermost_cons (n : Node) (inner parent : List Node) (outer : List (List Node)) :
    outermost inner (parent :: outer) <:+ outermost (n :: parent) outer := by
  cases outer with
  | nil => exact List.suffix_cons n parent
  | cons grand outer => exact List.suffix_refl _

theorem settled_step (r : Reading) (t : Token) : r.settled <+: (r.step t).settled := by
  obtain ⟨inner, outer⟩ := r
  obtain ⟨kind, text⟩ := t
  refine List.reverse_prefix.2 ?_
  cases kind with
  | openParen => exact List.suffix_refl _
  | closeParen =>
    cases outer with
    | nil => exact List.suffix_refl _
    | cons parent outer => exact outermost_cons _ inner parent outer
  | _ =>
    cases outer with
    | nil => exact List.suffix_cons _ inner
    | cons parent outer => exact List.suffix_refl _

theorem settled_run (r : Reading) (ts : List Token) : r.settled <+: (r.run ts).settled := by
  induction ts generalizing r with
  | nil => exact List.prefix_refl _
  | cons t ts ih => exact (settled_step r t).trans (ih (r.step t))

/-- A forest consists of what is settled and at most one more node. -/
theorem forest_eq_settled_append (r : Reading) :
    ∃ rest, r.forest = r.settled ++ rest ∧ rest.length ≤ 1 := by
  obtain ⟨inner, outer⟩ := r
  induction outer generalizing inner with
  | nil => exact ⟨[], by simp [forest, close, settled, outermost], Nat.zero_le 1⟩
  | cons parent outer ih =>
    cases outer with
    | nil =>
      refine ⟨[.branch inner.reverse], ?_, Nat.le_refl 1⟩
      simp [forest, close, settled, outermost]
    | cons grand outer => exact ih (.branch inner.reverse :: parent)

end Reading

namespace Node

/-- More tokens leave all nodes of a forest as they are, but for the last one. -/
theorem dropLast_forestOf {ts us : List Token} (h : ts <+: us) :
    (forestOf ts).dropLast <+: forestOf us := by
  obtain ⟨vs, rfl⟩ := h
  have hrun : Reading.run {} (ts ++ vs) = (Reading.run {} ts).run vs := List.foldl_append
  obtain ⟨rest, hf, hlen⟩ := (Reading.run {} ts).forest_eq_settled_append
  obtain ⟨rest', hf', -⟩ := ((Reading.run {} ts).run vs).forest_eq_settled_append
  have hdrop : (forestOf ts).dropLast <+: (Reading.run {} ts).settled := by
    rw [forestOf, hf]
    match rest, hlen with
    | [], _ =>
      rw [List.append_nil]
      exact List.dropLast_prefix _
    | [n], _ => rw [List.dropLast_concat]
  have hsettled := hdrop.trans (Reading.settled_run (Reading.run {} ts) vs)
  have hforest : forestOf (ts ++ vs) = ((Reading.run {} ts).run vs).settled ++ rest' := by
    rw [forestOf, hrun, hf']
  rw [hforest]
  exact hsettled.trans (List.prefix_append _ rest')

theorem dropLast_children_program {forest forest' : List Node} (h : forest.dropLast <+: forest') :
    (program forest).children.dropLast <+: (program forest').children := by
  cases forest with
  | nil => exact List.nil_prefix
  | cons n forest => exact List.prefix_cons_iff.2 (.inr ⟨_, rfl, h⟩)

end Node

/-! ### Lower caps -/

/-- Two scans of one source: they are the same, or the one with the lower cap is truncated and has
found the first tokens of the other one. -/
theorem scan_cap {m n : Nat} (h : m ≤ n) (source : List Char) :
    scan m source = scan n source ∨
      (scan m source).truncated = true ∧
        ∃ ts, (scan m source).tokens source = .ok ts ∧
          ∀ us, (scan n source).tokens source = .ok us → ts <+: us := by
  simp only [Scan.tokens_eq_ok]
  exact Scan.go_cap h {} 0 source

/-- What is found with a lower cap are the first tokens of what is found with a higher one. -/
theorem tokens_prefix_of_le {m n : Nat} (h : m ≤ n) {source : List Char} {ts us : List Token}
    (hts : (scan m source).tokens source = .ok ts)
    (hus : (scan n source).tokens source = .ok us) : ts <+: us := by
  rcases scan_cap h source with he | ⟨-, ts', hts', hpre⟩
  · rw [he, hus] at hts
    cases hts
    exact List.prefix_refl _
  · rw [hts] at hts'
    cases hts'
    exact hpre us hus

/-- **A lower cap only removes from the end.** A fault that a scan finds is found with any higher
cap, and so is everything if the scan is not truncated; a truncated scan finds the first tokens,
each of them whole. Reading under a cap, one token at a time, reads the first tokens as a tree; and
with higher caps for both, all nodes below the root stay the same but for the last one. -/
theorem lower_cap_removes_from_end :
    (∀ (source : List Char) (m n : Nat), m ≤ n →
      (∀ e, (scan m source).tokens source = .error e →
        (scan n source).tokens source = .error e) ∧
      ((scan m source).truncated = false → scan n source = scan m source) ∧
      ((scan m source).truncated = true →
        ∃ ts, (scan m source).tokens source = .ok ts ∧
          ∀ us, (scan n source).tokens source = .ok us → ts <+: us)) ∧
    (∀ (cap : Nat) (ts : List Token),
      Node.ofTokens cap ts = .program (Reading.runUnder cap {} 0 ts).1.forest ∧
      Node.isCut cap ts = (Reading.runUnder cap {} 0 ts).2 ∧
      (Reading.runUnder cap {} 0 ts).1 = Reading.run {} (ts.take cap) ∧
      ((Reading.runUnder cap {} 0 ts).2 = true ↔ cap < ts.length)) ∧
    ∀ (source : String) (low high : Limits) (ts us : List Token),
      effectiveCap low.tokenizerReads ≤ effectiveCap high.tokenizerReads →
      effectiveCap low.parserReads ≤ effectiveCap high.parserReads →
      tokenize low.tokenizerReads source = .ok ts →
      tokenize high.tokenizerReads source = .ok us →
      (Node.ofTokens (effectiveCap low.parserReads) ts).children.dropLast <+:
        (Node.ofTokens (effectiveCap high.parserReads) us).children := by
  refine ⟨fun source m n h => ⟨fun e he => ?_, fun ht => ?_, fun ht => ?_⟩, fun cap ts => ?_, ?_⟩
  · rcases scan_cap h source with hs | ⟨-, ts, hts, -⟩
    · rw [← hs, he]
    · rw [hts] at he
      cases he
  · rcases scan_cap h source with hs | ⟨ht', -⟩
    · exact hs.symm
    · rw [ht] at ht'
      cases ht'
  · obtain ⟨ts, hr⟩ := Scan.result_of_truncated ht
    have hts : (scan m source).tokens source = .ok ts := Scan.tokens_eq_ok.2 hr
    exact ⟨ts, hts, fun us hus => tokens_prefix_of_le h hts hus⟩
  · have hrun := Reading.runUnder_eq (Nat.zero_le cap) {} ts
    rw [Nat.sub_zero] at hrun
    rw [hrun]
    exact ⟨rfl, rfl, rfl, decide_eq_true_iff⟩
  · intro source low high ts us hscan hread hts hus
    have hpre : ts <+: us := tokens_prefix_of_le hscan hts hus
    apply Node.dropLast_children_program
    apply Node.dropLast_forestOf
    exact (hpre.take _).trans (List.take_prefix_take_left hread)

/-- A fault behind a symbol; a symbol at the end; a number that the cap of six cuts in two; and two
lists and a symbol, of which caps of eight and four leave one list and the start of the other. -/
theorem lower_cap_removes_from_end_of_lists :
    (scan 30 "f#".toList).tokens "f#".toList = .error ⟨1, ⟨1, 2⟩, '#'⟩ ∧
    scan 30 "f".toList = scan 1 "f".toList ∧
    (∃ ts, (scan 6 "(f 12)".toList).tokens "(f 12)".toList = .ok ts ∧
      ts <+: [.opening, .sym "f", ⟨.number, "12"⟩, .closing]) ∧
    (Node.ofTokens 4 [.opening, .sym "f", .closing, .opening, .sym "g"]).children.dropLast <+:
      (Node.ofTokens 10000
        [.opening, .sym "f", .closing, .opening, .sym "g", .closing, .sym "h"]).children := by
  obtain ⟨hscan, -, htree⟩ := lower_cap_removes_from_end
  refine ⟨?_, ?_, ?_, ?_⟩
  · exact (hscan "f#".toList 3 30 (by decide)).1 _ rfl
  · exact (hscan "f".toList 1 30 (by decide)).2.1 rfl
  · obtain ⟨ts, hts, hpre⟩ := (hscan "(f 12)".toList 6 30 (by decide)).2.2 rfl
    exact ⟨ts, hts, hpre _ rfl⟩
  · exact htree "(f) (g) h" ⟨8, 4⟩ ⟨0, 0⟩ _ _ (by decide) (by decide) rfl rfl

end Lisplet
