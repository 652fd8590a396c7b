import Lisplet.Proofs.Join
import Lisplet.Proofs.Render
import Lisplet.Proofs.Truncation

/-!
# How many attempts a scan makes

Each character takes one attempt to read, and the character that ends a number, a symbol or a quote
takes another one. At the end of the source there is one attempt more, and two if a token is being
read there. So the attempts can be counted on the tokens of the source, each with the characters
that follow it, and a cap suffices exactly if it allows the attempts up to the last character.

* `tokensWithRest`, `rereads`: the tokens with what follows them, and those that are read beyond;
* `Scan.Mode.toCome`: the tokens that are still to come in each mode;
* `Scan.Finishes`, `Scan.step_finishes`, `Scan.lastState_finishes`: tokens and attempts, for one
  character and for many;
* `Scan.lastState_of_reads_le`: caps that make no difference;
* `exact_cost_of_scanning`: the attempts of a scan, and the caps that suffice for it.
-/

namespace Lisplet

/-! ### Tokens and what follows them -/

/-- Whether a token lasts as long as its characters are of one class: a number, a symbol or a
quote. -/
def Token.isRun (t : Token) : Bool :=
  match t.kind with
  | .number => true
  | .symbol => true
  | .quote => true
  | _ => false

/-- The tokens of a source, up to a fault in it, each with the characters that follow it. -/
def tokensWithRest : List Char → List (Token × List Char)
  | [] => []
  | c :: rest =>
    match _h : lexeme c rest with
    | none => []
    | some (t, rest') => t.toList.map (·, rest') ++ tokensWithRest rest'
termination_by cs => cs.length
decreasing_by exact Nat.lt_succ_of_le (length_lexeme _h)

@[simp] theorem tokensWithRest_nil : tokensWithRest [] = [] := by
  rw [tokensWithRest]

theorem tokensWithRest_of_some {c : Char} {rest rest' : List Char} {t : Option Token}
    (h : lexeme c rest = some (t, rest')) :
    tokensWithRest (c :: rest) = t.toList.map (·, rest') ++ tokensWithRest rest' := by
  rw [tokensWithRest]
  split
  · rename_i h'
    rw [h] at h'
    cases h'
  · rename_i h'
    rw [h] at h'
    cases h'
    rfl

theorem tokensWithRest_of_none {c : Char} {rest : List Char} (h : lexeme c rest = none) :
    tokensWithRest (c :: rest) = [] := by
  rw [tokensWithRest]
  split
  · rfl
  · rename_i h'
    rw [h] at h'
    cases h'

/-- How many numbers, symbols and quotes of a source are followed by at least one more character. -/
def rereads (source : List Char) : Nat :=
  (tokensWithRest source).countP fun p => p.1.isRun && !p.2.isEmpty

/-- Whether a source ends inside a number, a symbol or a quote. -/
def endsInRun (source : List Char) : Bool :=
  (tokensWithRest source).any fun p => p.1.isRun && p.2.isEmpty

/-- There are fewer such tokens than characters. -/
theorem rereads_cons_le (c : Char) (rest : List Char) : rereads (c :: rest) ≤ rest.length := by
  -- The last of them is followed by a character that belongs to none of those before it.
  induction hn : rest.length using Nat.strongRecOn generalizing c rest with
  | ind n ih =>
    cases hl : lexeme c rest with
    | none => simp [rereads, tokensWithRest_of_none hl]
    | some l =>
      obtain ⟨t, rest'⟩ := l
      have hle := length_lexeme hl
      cases rest' with
      | nil =>
        rw [rereads, tokensWithRest_of_some hl]
        cases t <;> simp
      | cons d rest' =>
        rw [List.length_cons] at hle
        have hrest : rereads (d :: rest') ≤ rest'.length := ih rest'.length (by omega) d rest' rfl
        have hfirst : (t.toList.map (·, d :: rest')).countP
            (fun p => p.1.isRun && !p.2.isEmpty) ≤ 1 := by
          refine Nat.le_trans List.countP_le_length ?_
          cases t <;> simp
        rw [rereads] at hrest
        rw [rereads, tokensWithRest_of_some hl, List.countP_append]
        omega

namespace Scan

/-! ### Characters that are taken -/

theorem start_next {cap : Nat} {s s' : State} {c : Char} {next : Option Char}
    (h : start cap s c next = .next s') :
    s'.reads = s.reads + 1 ∧ s'.reads ≤ cap ∧
      ∀ cap', s'.reads ≤ cap' → start cap' s c next = .next s' := by
  have hcap : ¬ cap < s.reads + 1 := by
    intro hc
    simp [start, State.count, hc] at h
  have hreads : s'.reads = s.reads + 1 := by
    simp only [start, State.count, hcap, if_false] at h
    split_ifs at h <;> cases h <;> rfl
  refine ⟨hreads, by omega, fun cap' hle => ?_⟩
  have hcap' : ¬ cap' < s.reads + 1 := by omega
  simp only [start, State.count, hcap, hcap', if_false] at h ⊢
  exact h

/-- A character that is taken makes attempts up to the cap, and is taken alike under every cap that
allows them. -/
theorem step_next {cap : Nat} {s s' : State} {c : Char} {next : Option Char}
    (h : step cap s c next = .next s') :
    s.reads < s'.reads ∧ s'.reads ≤ cap ∧
      ∀ cap', s'.reads ≤ cap' → step cap' s c next = .next s' := by
  have hcap : ¬ cap < s.reads + 1 := by
    intro hc
    obtain ⟨s₁, hcut⟩ := step_of_cap_lt hc c next
    rw [hcut] at h
    cases h
  obtain ⟨mode, reads, tokens⟩ := s
  cases mode with
  | between =>
    obtain ⟨hreads, hle, hall⟩ := start_next h
    exact ⟨by omega, hle, hall⟩
  | run kind text =>
    by_cases hk : kind.accepts c
    · simp only [step, State.count, hcap, hk, if_false, if_true] at h ⊢
      cases h
      refine ⟨Nat.lt_succ_self _, Nat.not_lt.1 hcap, fun cap' hle => ?_⟩
      exact if_neg (Nat.not_lt.2 hle)
    · simp only [step, State.count, hcap, hk, if_false, Bool.false_eq_true] at h ⊢
      obtain ⟨hreads, hle, hall⟩ := start_next h
      have hreads' : s'.reads = reads + 1 + 1 := hreads
      refine ⟨by omega, hle, fun cap' hle' => ?_⟩
      rw [if_neg (by omega)]
      exact hall cap' hle'
  | string text escaped =>
    have hreads : s'.reads = reads + 1 := by
      simp only [step, State.count, hcap, if_false] at h
      split_ifs at h <;> cases h <;> rfl
    have hlt : reads < s'.reads := by omega
    refine ⟨hlt, hreads ▸ Nat.not_lt.1 hcap, fun cap' hle => ?_⟩
    have hcap' : ¬ cap' < reads + 1 := by omega
    simp only [step, State.count, hcap, hcap', if_false] at h ⊢
    exact h

/-! ### Tokens to come -/

/-- The tokens to come inside a string. -/
def stringToCome (text cs : List Char) : List (Token × List Char) :=
  match stringBody cs with
  | some (text', rest) =>
    (⟨.string, String.ofList (text.reverse ++ text')⟩, rest) :: tokensWithRest rest
  | none => []

/-- The tokens to come in a mode, each with the characters that follow it. -/
def Mode.toCome : Mode → List Char → List (Token × List Char)
  | .between, cs => tokensWithRest cs
  | .run kind text, cs =>
    (⟨kind.kind, String.ofList (text.reverse ++ cs.takeWhile kind.accepts)⟩,
      cs.dropWhile kind.accepts) :: tokensWithRest (cs.dropWhile kind.accepts)
  | .string text false, cs => stringToCome text cs
  | .string _ true, [] => []
  | .string text true, c :: cs => stringToCome (c :: text) cs

theorem tokensWithRest_quote (cs : List Char) :
    tokensWithRest ('\x22' :: cs) = stringToCome [] cs := by
  cases hb : stringBody cs with
  | none =>
    have hl : lexeme '\x22' cs = some (none, []) := by simp [lexeme, hb]
    simp [tokensWithRest_of_some hl, stringToCome, hb]
  | some b => simp [tokensWithRest_of_some (lexeme_string hb), stringToCome, hb]

theorem stringToCome_backslash (text cs : List Char) :
    stringToCome text ('\\' :: cs) = Mode.toCome (.string text true) cs := by
  cases cs with
  | nil => rfl
  | cons c cs =>
    simp only [stringToCome, Mode.toCome, stringBody_backslash]
    cases stringBody cs <;> simp

theorem stringToCome_of_ne {c : Char} (hq : ¬ c = '\x22') (hb : ¬ c = '\\') (text cs : List Char) :
    stringToCome text (c :: cs) = stringToCome (c :: text) cs := by
  simp only [stringToCome, stringBody_of_ne hq hb]
  cases stringBody cs <;> simp

/-- The machine gets from `s`, with the characters `cs` left, to `s'`, with `ds` left. It finishes
the tokens `done`, of which each run is followed by a character; and it makes one attempt for each
character and one more for each run. -/
structure Finishes (s s' : State) (cs ds : List Char) (done : List (Token × List Char)) : Prop where
  tokens : s'.tokens = (done.map Prod.fst).reverse ++ s.tokens
  toCome : s.mode.toCome cs = done ++ s'.mode.toCome ds
  followed : ∀ p ∈ done, p.1.isRun = true → p.2 ≠ []
  reads : s'.reads + ds.length = s.reads + cs.length + done.countP (·.1.isRun)

theorem Finishes.trans {s s₁ s₂ : State} {cs ds es : List Char}
    {done done' : List (Token × List Char)} (h : Finishes s s₁ cs ds done)
    (h' : Finishes s₁ s₂ ds es done') :
    Finishes s s₂ cs es (done ++ done') where
  tokens := by rw [h'.tokens, h.tokens]; simp
  toCome := by rw [h.toCome, h'.toCome, List.append_assoc]
  followed := by
    intro p hp
    rcases List.mem_append.1 hp with hp | hp
    · exact h.followed p hp
    · exact h'.followed p hp
  reads := by
    have := h.reads
    have := h'.reads
    rw [List.countP_append]
    omega

/-- A character that finishes no token. -/
theorem Finishes.nothing {s s' : State} {c : Char} {cs : List Char} (htokens : s'.tokens = s.tokens)
    (hreads : s'.reads = s.reads + 1) (h : s.mode.toCome (c :: cs) = s'.mode.toCome cs) :
    Finishes s s' (c :: cs) cs [] where
  tokens := htokens
  toCome := h
  followed := by simp
  reads := by
    rw [hreads, List.length_cons, List.countP_nil]
    omega

/-- A character that finishes a token, and is a part of it. -/
theorem Finishes.token {s s' : State} {c : Char} {cs : List Char} {t : Token}
    (ht : t.isRun = false) (htokens : s'.tokens = t :: s.tokens) (hreads : s'.reads = s.reads + 1)
    (h : s.mode.toCome (c :: cs) = (t, cs) :: s'.mode.toCome cs) :
    Finishes s s' (c :: cs) cs [(t, cs)] where
  tokens := htokens
  toCome := h
  followed := by simp [ht]
  reads := by
    simp only [hreads, List.length_cons, List.countP_singleton, ht, Bool.false_eq_true, if_false]
    omega

/-- A character that finishes the run before it, and is read again. -/
theorem Finishes.run {kind : Run} {c : Char} {text cs : List Char} (hc : kind.accepts c = false)
    (reads : Nat) (tokens : List Token) :
    Finishes ⟨.run kind text, reads, tokens⟩
      (State.emit ⟨.run kind text, reads + 1, tokens⟩ kind.kind text) (c :: cs) (c :: cs)
      [(⟨kind.kind, String.ofList text.reverse⟩, c :: cs)] where
  tokens := rfl
  toCome := by simp [State.emit, Mode.toCome, hc]
  followed := by simp
  reads := by
    have hrun : Token.isRun ⟨kind.kind, String.ofList text.reverse⟩ = true := by
      cases kind <;> rfl
    simp only [State.emit, List.countP_singleton, hrun, if_true]
    omega

/-- Between tokens, a character finishes a parenthesis or nothing. -/
theorem start_finishes {cap : Nat} {s s' : State} {c : Char} {cs : List Char}
    (h : start cap s c cs.head? = .next s') (hm : s.mode = .between) :
    ∃ done, Finishes s s' (c :: cs) cs done := by
  obtain ⟨mode, reads, tokens⟩ := s
  obtain rfl : mode = .between := hm
  have hcap : ¬ cap < reads + 1 := by
    obtain ⟨hreads, hle, -⟩ := start_next h
    exact Nat.not_lt.2 (hreads ▸ hle)
  simp only [start, State.count, hcap, if_false] at h
  split_ifs at h with h₁ h₂ h₃ h₄ h₅ h₆ h₇
  · cases h
    have hl : lexeme c cs = some (none, cs) := by simp only [lexeme, h₁, if_true]
    exact ⟨_, .nothing rfl rfl (tokensWithRest_of_some hl)⟩
  · cases h
    have hl : lexeme c cs = some (some ⟨.openParen, String.ofList [c]⟩, cs) := by
      subst h₂
      rfl
    exact ⟨_, .token rfl rfl rfl (tokensWithRest_of_some hl)⟩
  · cases h
    have hl : lexeme c cs = some (some ⟨.closeParen, String.ofList [c]⟩, cs) := by
      subst h₃
      rfl
    exact ⟨_, .token rfl rfl rfl (tokensWithRest_of_some hl)⟩
  · cases h
    subst h₄
    exact ⟨_, .nothing rfl rfl (tokensWithRest_quote cs)⟩
  · cases h
    exact ⟨_, .nothing rfl rfl (tokensWithRest_of_some (lexeme_number h₅))⟩
  · cases h
    subst h₆
    exact ⟨_, .nothing rfl rfl (tokensWithRest_of_some (lexeme_quote cs))⟩
  · cases h
    have hl := lexeme_symbol h₇ (Bool.eq_false_iff.2 h₅)
    exact ⟨_, .nothing rfl rfl (tokensWithRest_of_some hl)⟩

/-- What taking a character comes to, in tokens and in attempts. -/
theorem step_finishes {cap : Nat} {s s' : State} {c : Char} {cs : List Char}
    (h : step cap s c cs.head? = .next s') : ∃ done, Finishes s s' (c :: cs) cs done := by
  have hcap : ¬ cap < s.reads + 1 := by
    obtain ⟨hlt, hle, -⟩ := step_next h
    exact Nat.not_lt.2 (Nat.le_trans hlt hle)
  obtain ⟨mode, reads, tokens⟩ := s
  cases mode with
  | between => exact start_finishes h rfl
  | run kind text =>
    simp only [step, State.count, hcap, if_false] at h
    split_ifs at h with hk
    · cases h
      exact ⟨_, .nothing rfl rfl (by simp [State.become, Mode.toCome, hk])⟩
    · -- The character ends the run, and is then taken between tokens.
      obtain ⟨done, hdone⟩ := start_finishes h rfl
      exact ⟨_, (Finishes.run (Bool.eq_false_iff.2 hk) reads tokens).trans hdone⟩
  | string text escaped =>
    simp only [step, State.count, hcap, if_false] at h
    cases escaped with
    | true =>
      cases h
      exact ⟨_, .nothing rfl rfl rfl⟩
    | false =>
      simp only [if_false, Bool.false_eq_true] at h
      split_ifs at h with hb hq
      · cases h
        subst hb
        exact ⟨_, .nothing rfl rfl (stringToCome_backslash text cs)⟩
      · cases h
        subst hq
        exact ⟨_, .token rfl rfl rfl (by simp [State.emit, Mode.toCome, stringToCome])⟩
      · cases h
        exact ⟨_, .nothing rfl rfl (stringToCome_of_ne hq hb text cs)⟩

/-- What going over many characters comes to. -/
theorem lastState_finishes {cap : Nat} {s s' : State} {cs : List Char}
    (h : lastState cap s cs = some s') : ∃ done, Finishes s s' cs [] done := by
  induction cs generalizing s with
  | nil =>
    cases h
    exact ⟨[], rfl, rfl, by simp, rfl⟩
  | cons c cs ih =>
    rw [lastState] at h
    cases hs : step cap s c cs.head? with
    | next s₁ =>
      rw [hs] at h
      obtain ⟨done, hdone⟩ := step_finishes hs
      obtain ⟨done', hdone'⟩ := ih h
      exact ⟨_, hdone.trans hdone'⟩
    | cut s₁ =>
      rw [hs] at h
      cases h
    | reject s₁ =>
      rw [hs] at h
      cases h

/-! ### The end of a source -/

/-- At the end of a source, only a run is still to be finished. -/
theorem toCome_nil (mode : Mode) :
    mode.toCome [] =
      match mode with
      | .run kind text => [(⟨kind.kind, String.ofList text.reverse⟩, [])]
      | _ => [] := by
  cases mode with
  | between => exact tokensWithRest_nil
  | run kind text => simp [Mode.toCome]
  | string text escaped => cases escaped <;> rfl

section

variable {s : State} {source : List Char} {done : List (Token × List Char)}
  (h : Finishes {} s source [] done)

include h

theorem tokensWithRest_of_finishes : tokensWithRest source = done ++ s.mode.toCome [] := h.toCome

/-- The tokens that were finished and the one that the end of the source finishes. -/
theorem map_tokensWithRest :
    (tokensWithRest source).map Prod.fst = (finish s).tokens.reverse := by
  have htokens := h.tokens
  rw [tokensWithRest_of_finishes h, toCome_nil]
  obtain ⟨mode, reads, tokens⟩ := s
  cases mode <;> simp_all [finish, State.count, State.emit, State.become]

/-- The runs that are followed by a character are those that were finished by it. -/
theorem rereads_eq : rereads source = done.countP (·.1.isRun) := by
  have hdone : done.countP (fun p => p.1.isRun && !p.2.isEmpty) = done.countP (·.1.isRun) := by
    apply List.countP_congr
    intro p hp
    have := h.followed p hp
    simpa using this
  have hlast : (s.mode.toCome []).countP (fun p => p.1.isRun && !p.2.isEmpty) = 0 := by
    rw [toCome_nil]
    cases s.mode <;> simp
  rw [rereads, tokensWithRest_of_finishes h, List.countP_append, hdone, hlast, Nat.add_zero]

/-- The end of the source takes one attempt, and another one inside a run or a string. -/
theorem reads_finish {cap : Nat} (hlast : lastState cap {} source = some s) :
    (finish s).reads =
      s.reads + 1 + if endsInRun source || endsInString cap source then 1 else 0 := by
  have hdone : done.any (fun p => p.1.isRun && p.2.isEmpty) = false := by
    rw [List.any_eq_false]
    intro p hp
    have := h.followed p hp
    simpa using this
  rw [endsInRun, tokensWithRest_of_finishes h, List.any_append, hdone, Bool.false_or, toCome_nil,
    endsInString, lastMode_eq, hlast]
  obtain ⟨mode, reads, tokens⟩ := s
  cases mode with
  | between => rfl
  | run kind text => cases kind <;> rfl
  | string text escaped => rfl

/-- One attempt for each character, and another one for each run that is followed by one. -/
theorem reads_eq : s.reads = source.length + rereads source := by
  have hreads := h.reads
  rw [rereads_eq h]
  simpa using hreads

end

/-! ### Caps that suffice -/

/-- A source is gone over alike under every cap that allows the attempts. -/
theorem lastState_of_reads_le {cap cap' : Nat} {s s' : State} {cs : List Char}
    (h : lastState cap s cs = some s') :
    s.reads ≤ s'.reads ∧ (s'.reads ≤ cap' → lastState cap' s cs = some s') := by
  induction cs generalizing s with
  | nil =>
    cases h
    exact ⟨Nat.le_refl _, fun _ => rfl⟩
  | cons c cs ih =>
    rw [lastState] at h ⊢
    cases hs : step cap s c cs.head? with
    | next s₁ =>
      rw [hs] at h
      obtain ⟨hlt, -, hall⟩ := step_next hs
      obtain ⟨hle, hrest⟩ := ih h
      refine ⟨by omega, fun hcap => ?_⟩
      rw [hall cap' (by omega)]
      exact hrest hcap
    | cut s₁ =>
      rw [hs] at h
      cases h
    | reject s₁ =>
      rw [hs] at h
      cases h

/-- A cap that does not allow the attempts up to the last character stops the machine before. -/
theorem truncated_of_lt {cap full offset : Nat} {s s' : State} {cs : List Char}
    (h : lastState full s cs = some s') (hs : s.reads ≤ cap) (hlt : cap < s'.reads) :
    (go cap s offset cs).truncated = true := by
  induction cs generalizing s offset with
  | nil =>
    cases h
    omega
  | cons c cs ih =>
    rw [lastState] at h
    rw [go]
    cases hstep : step full s c cs.head? with
    | next s₁ =>
      rw [hstep] at h
      obtain ⟨-, hle, hall⟩ := step_next hstep
      rcases Nat.lt_or_ge cap s₁.reads with hcap | hcap
      · rcases step_cap (Nat.le_of_lt (Nat.lt_of_lt_of_le hcap hle)) s c cs.head? with
          heq | ⟨s₂, hcut, -⟩
        · have hnext := step_next (heq.trans hstep)
          omega
        · rw [hcut]
      · rw [hall cap hcap]
        exact ih h hcap
    | cut s₁ =>
      rw [hstep] at h
      cases h
    | reject s₁ =>
      rw [hstep] at h
      cases h

theorem truncated_iff {cap full : Nat} {s : State} {source : List Char}
    (h : lastState full {} source = some s) :
    (scan cap source).truncated = true ↔ cap < s.reads := by
  constructor
  · intro ht
    by_contra hle
    have hlast := (lastState_of_reads_le h).2 (Nat.not_lt.1 hle)
    rw [scan, go_eq_of_lastState hlast] at ht
    cases ht
  · intro hlt
    exact truncated_of_lt h (Nat.zero_le cap) hlt

/-- A scan that succeeds, and is not cut short, reaches the end of its source. -/
theorem exists_lastState {cap offset : Nat} {s : State} {cs : List Char} {ts : List Token}
    (ht : (go cap s offset cs).truncated = false) (h : (go cap s offset cs).result = .ok ts) :
    ∃ s', lastState cap s cs = some s' := by
  cases hlast : lastState cap s cs with
  | some s' => exact ⟨s', rfl⟩
  | none =>
    have hcut := (go_of_lastState_none h hlast []).1
    rw [ht] at hcut
    cases hcut

/-! ### Bounds on attempts and caps -/

theorem reads_start (cap : Nat) (s : State) (c : Char) (next : Option Char) :
    (start cap s c next).state.reads = s.reads + 1 := by
  simp only [start]
  split_ifs <;> rfl

theorem reads_step_le (cap : Nat) (s : State) (c : Char) (next : Option Char) :
    (step cap s c next).state.reads ≤ s.reads + 2 := by
  obtain ⟨mode, reads, tokens⟩ := s
  cases mode with
  | between =>
    have hstart := reads_start cap ⟨.between, reads, tokens⟩ c next
    exact hstart ▸ Nat.le_succ _
  | run kind text =>
    simp only [step]
    split_ifs
    · exact Nat.le_refl _
    · exact Nat.le_succ _
    · exact Nat.le_of_eq (reads_start cap _ c next)
  | string text escaped =>
    simp only [step]
    split_ifs <;> simp [Step.state, State.count, State.become, State.emit]

/-- However a scan ends, it makes at most two attempts beyond the cap. -/
theorem reads_go_le {cap offset : Nat} {s : State} (hs : s.reads ≤ cap) (cs : List Char) :
    (go cap s offset cs).reads ≤ cap + 2 := by
  induction cs generalizing s offset with
  | nil =>
    obtain ⟨mode, reads, tokens⟩ := s
    cases mode <;> simp [go, finish, State.count, State.emit, State.become] at hs ⊢ <;> omega
  | cons c cs ih =>
    have hstep := reads_step_le cap s c cs.head?
    rw [go]
    cases h : step cap s c cs.head? with
    | next s' => exact ih (step_next h).2.1
    | cut s' =>
      rw [h] at hstep
      exact Nat.le_trans hstep (Nat.add_le_add_right hs 2)
    | reject s' =>
      rw [h] at hstep
      exact Nat.le_trans hstep (Nat.add_le_add_right hs 2)

/-- The first character is read once and every other one at most twice. -/
theorem scan_of_le {cap : Nat} {source : List Char} (h : 2 * source.length - 1 ≤ cap) :
    (scan cap source).truncated = false := by
  cases source with
  | nil => rfl
  | cons c cs =>
    rw [List.length_cons] at h
    have hfirst : (0 : Nat) + 1 ≤ cap := by omega
    rw [scan, go]
    rcases start_of_le (s := {}) hfirst c cs.head? with ⟨s', hs, hreads⟩ | ⟨s', hs⟩
    · have hstep : step cap {} c cs.head? = .next s' := hs
      rw [hstep]
      exact go_of_le (by rw [hreads]; show 0 + 1 + 2 * cs.length ≤ cap; omega)
    · have hstep : step cap {} c cs.head? = .reject s' := hs
      rw [hstep]

end Scan

/-! ### The cost of a scan -/

/-- **What scanning costs.** Let a source be such that a scan of it succeeds under some cap that
does not cut it short. Its tokens can be listed with the characters that follow each of them; let
the numbers, symbols and quotes be counted that are followed by at least one. Then a cap cuts the
scan short if and only if it is less than the number of characters and of these tokens together.
Otherwise the scan makes one attempt more than that, or two if the source ends inside a token. There
are fewer such tokens than characters. No scan of whatever source makes more than two attempts
beyond its cap, and none is cut short if the cap is at least twice the length of the source less
one; so the usual cap suffices for 5000 characters. -/
theorem exact_cost_of_scanning :
    (∀ (source : List Char) (full : Nat) (ts : List Token),
      (scan full source).truncated = false → (scan full source).result = .ok ts →
      (tokensWithRest source).map Prod.fst = ts ∧
      (∀ cap, (scan cap source).truncated = true ↔ cap < source.length + rereads source) ∧
      (∀ cap, (scan cap source).truncated = false →
        (scan cap source).reads = source.length + rereads source + 1 +
          if endsInRun source || Scan.endsInString cap source then 1 else 0)) ∧
    (∀ source : List Char, 1 ≤ source.length → rereads source ≤ source.length - 1) ∧
    (∀ (cap : Nat) (source : List Char), (scan cap source).reads ≤ cap + 2) ∧
    (∀ (cap : Nat) (source : List Char), 2 * source.length - 1 ≤ cap →
      (scan cap source).truncated = false) ∧
    ∀ (limit : Int) (source : String), limit ≤ 0 → source.length ≤ 5000 →
      (scan (effectiveCap limit) source.toList).truncated = false := by
  refine ⟨fun source full ts ht hts => ?_, fun source hpos => ?_, fun cap source => ?_,
    fun cap source => Scan.scan_of_le, fun limit source hlimit hlen => ?_⟩
  · obtain ⟨s, hlast⟩ := Scan.exists_lastState ht hts
    obtain ⟨done, hdone⟩ := Scan.lastState_finishes hlast
    have hreads := Scan.reads_eq hdone
    have htruncated : ∀ cap, (scan cap source).truncated = true ↔
        cap < source.length + rereads source := by
      intro cap
      rw [← hreads]
      exact Scan.truncated_iff hlast
    refine ⟨?_, htruncated, fun cap hcap => ?_⟩
    · rw [scan, Scan.go_eq_of_lastState hlast] at hts
      cases hts
      exact Scan.map_tokensWithRest hdone
    · have hle : s.reads ≤ cap := by
        rw [hreads]
        exact Nat.not_lt.1 fun hlt => Bool.eq_false_iff.1 hcap ((htruncated cap).2 hlt)
      have hlast' := (Scan.lastState_of_reads_le hlast).2 hle
      rw [scan, Scan.go_eq_of_lastState hlast', ← hreads]
      exact Scan.reads_finish hdone hlast'
  · cases source with
    | nil => cases hpos
    | cons c rest => exact rereads_cons_le c rest
  · exact Scan.reads_go_le (Nat.zero_le cap) source
  · have hcap : effectiveCap limit = 10000 := if_neg (Int.not_lt.2 hlimit)
    apply Scan.scan_of_le
    rw [hcap, String.length_toList]
    omega

/-- A symbol, a quote without a text, and a number that ends the source: seven characters, and two
of these tokens are followed by a character. A cap of nine suffices, with two attempts beyond it. -/
theorem exact_cost_of_scanning_at_cap :
    rereads "f\x27 -1.5".toList = 2 ∧
      (scan 8 "f\x27 -1.5".toList).truncated = true ∧
      (scan 9 "f\x27 -1.5".toList).truncated = false ∧
      (scan 9 "f\x27 -1.5".toList).reads = 9 + 2 ∧
      rereads "f\x27 -1.5".toList ≤ "f\x27 -1.5".toList.length - 1 ∧
      (scan 13 "f\x27 -1.5".toList).truncated = false ∧
      (scan (effectiveCap 0) "f\x27 -1.5".toList).truncated = false := by
  have hsymbol : lexeme 'f' "\x27 -1.5".toList = some (some (.sym "f"), "\x27 -1.5".toList) := rfl
  have hquote : lexeme '\x27' " -1.5".toList = some (some ⟨.quote, ""⟩, " -1.5".toList) := rfl
  have hblank : lexeme ' ' "-1.5".toList = some (none, "-1.5".toList) := rfl
  have hnumber : lexeme '-' "1.5".toList = some (some ⟨.number, "-1.5"⟩, []) := rfl
  have htokens : tokensWithRest "f\x27 -1.5".toList =
      [(.sym "f", "\x27 -1.5".toList), (⟨.quote, ""⟩, " -1.5".toList),
        (⟨.number, "-1.5"⟩, [])] := by
    refine (tokensWithRest_of_some hsymbol).trans (congrArg _ ?_)
    refine (tokensWithRest_of_some hquote).trans (congrArg _ ?_)
    refine (tokensWithRest_of_some hblank).trans ?_
    exact (tokensWithRest_of_some hnumber).trans (congrArg _ tokensWithRest_nil)
  have hrereads : rereads "f\x27 -1.5".toList = 2 := by
    rw [rereads, htokens]
    rfl
  have hends : endsInRun "f\x27 -1.5".toList = true := by
    rw [endsInRun, htokens]
    rfl
  obtain ⟨hcost, hfewer, -, hcaps, husual⟩ := exact_cost_of_scanning
  obtain ⟨-, htruncated, hreads⟩ := hcost "f\x27 -1.5".toList 20 _ rfl rfl
  rw [hrereads] at htruncated hreads
  have hcap : (scan 9 "f\x27 -1.5".toList).truncated = false :=
    Bool.eq_false_iff.2 fun h => absurd ((htruncated 9).1 h) (by decide)
  refine ⟨hrereads, (htruncated 8).2 (by decide), hcap, ?_, hfewer _ (by decide),
    hcaps 13 _ (by decide), husual 0 "f\x27 -1.5" (by decide) (by decide)⟩
  rw [hreads 9 hcap, hends]
  rfl

end Lisplet
