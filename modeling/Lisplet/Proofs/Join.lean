import Mathlib.Data.List.Induction
import Mathlib.Tactic.SplitIfs
import Lisplet.Proofs.Lexer

/-!
# Sources joined by a newline

No token goes on over a newline, except for a string. So if a source does not end inside a
string, then what follows it on the next line is scanned as if it stood alone; and if the source
leaves no list open, what follows is read as if it stood alone.

* `Position.after_newline`: lines are counted on, columns start anew;
* `Scan.lastMode`, `Scan.lastState`, `Scan.endsInString`: how the scan of a source ends;
* `Scan.go_of_lastState`: from there, what follows on the next line is scanned;
* `Scan.go_newline`: the machine after a source and a newline;
* `Scan.go_after`: tokens and attempts to read of an earlier source make no difference;
* `Scan.scan_join`: the scan of a joined source;
* `Node.forestOf_append`: the trees of a joined source;
* `tokens_and_faults_of_joined`: the tokens of a joined source, or the fault in it.
-/

namespace Lisplet

/-! ### Positions after a newline -/

namespace Position

theorem line_after (before : List Char) : (after before).line = before.count '\n' + 1 := by
  induction before using List.reverseRecOn with
  | nil => rfl
  | append_singleton before c ih =>
    rw [after_concat, List.count_append, advance]
    by_cases hc : c = '\n'
    · simp [hc, ih]
    · simp [hc, ih]

/-- To start so many lines further down is to end so many lines further down. -/
theorem foldl_advance (k line column : Nat) (cs : List Char) :
    cs.foldl advance ⟨k + line, column⟩ =
      ⟨k + (cs.foldl advance ⟨line, column⟩).line, (cs.foldl advance ⟨line, column⟩).column⟩ := by
  induction cs generalizing line column with
  | nil => rfl
  | cons c cs ih =>
    simp only [List.foldl_cons, advance]
    by_cases hc : c = '\n'
    · simp only [hc, if_true]
      exact ih (line + 1) 1
    · simp only [hc, if_false]
      exact ih line (column + 1)

/-- After a newline, lines are counted on from those before it, and columns start anew. -/
theorem after_newline (before rest : List Char) :
    after (before ++ '\n' :: rest) =
      ⟨before.count '\n' + 1 + (after rest).line, (after rest).column⟩ := by
  have hstart : (after before).advance '\n' = ⟨before.count '\n' + 1 + 1, 1⟩ := by
    simp [advance, line_after]
  have hfold : after (before ++ '\n' :: rest) =
      rest.foldl advance ((after before).advance '\n') := by
    simp [after]
  rw [hfold, hstart, foldl_advance]
  rfl

end Position

/-- A fault on the lines after a source and a newline. -/
theorem SyntaxError.locate_newline (before rest : List Char) (offset : Nat) (c : Char) :
    locate (before ++ '\n' :: rest) (before.length + 1 + offset) c =
      ⟨before.length + 1 + offset,
        ⟨before.count '\n' + 1 + (locate rest offset c).position.line,
          (locate rest offset c).position.column⟩, c⟩ := by
  have htake : (before ++ '\n' :: rest).take (before.length + 1 + offset) =
      before ++ '\n' :: rest.take offset := by
    rw [Nat.add_assoc, List.take_length_add_append, Nat.add_comm 1, List.take_succ_cons]
  rw [locate, htake, Position.after_newline]
  rfl

namespace Scan

/-! ### The end of a source -/

/-- The mode in which the machine reaches the end of the characters that are left; none if the cap
stops it before, or a character is rejected. -/
def lastMode (cap : Nat) : State → List Char → Option Mode
  | s, [] => some s.mode
  | s, c :: rest =>
    match step cap s c rest.head? with
    | .next s => lastMode cap s rest
    | _ => none

/-- The state in which the machine reaches that end. -/
def lastState (cap : Nat) : State → List Char → Option State
  | s, [] => some s
  | s, c :: rest =>
    match step cap s c rest.head? with
    | .next s => lastState cap s rest
    | _ => none

theorem lastMode_eq (cap : Nat) (s : State) (cs : List Char) :
    lastMode cap s cs = (lastState cap s cs).map State.mode := by
  induction cs generalizing s with
  | nil => rfl
  | cons c cs ih =>
    rw [lastMode, lastState]
    cases step cap s c cs.head? with
    | next s' => exact ih s'
    | cut s' => rfl
    | reject s' => rfl

/-- Whether the scan of a source reaches the end inside a string. -/
def endsInString (cap : Nat) (source : List Char) : Bool :=
  match lastMode cap {} source with
  | some (.string _ _) => true
  | _ => false

/-! ### A newline after a source -/

/-- Only a digit makes a difference to the character before it: any other one may as well be the end
of the source. -/
theorem step_of_not_digit {d : Char} (hd : d.isDigit = false) (cap : Nat) (s : State) (c : Char) :
    step cap s c (some d) = step cap s c none := by
  have h : startsNumber c (some d) = startsNumber c none := by
    simp [startsNumber, hd]
  simp only [step, start, h]

/-- A character is taken in the same way if the source ends after `cs` and if it goes on with
something else than a digit. -/
theorem step_head?_append {ds : List Char} (hds : ∀ c ∈ ds.head?, c.isDigit = false) (cap : Nat)
    (s : State) (c : Char) (cs : List Char) :
    step cap s c (cs ++ ds).head? = step cap s c cs.head? := by
  cases cs with
  | cons d cs => rfl
  | nil =>
    cases ds with
    | nil => rfl
    | cons d ds => exact step_of_not_digit (hds d rfl) cap s c

/-- What follows is scanned from the state at the end of a source, unless it starts with a digit. -/
theorem go_of_lastState {cap offset : Nat} {s s' : State} {cs ds : List Char}
    (h : lastState cap s cs = some s') (hds : ∀ c ∈ ds.head?, c.isDigit = false) :
    go cap s offset (cs ++ ds) = go cap s' (offset + cs.length) ds := by
  induction cs generalizing s offset with
  | nil =>
    cases h
    rfl
  | cons c cs ih =>
    rw [lastState] at h
    rw [List.cons_append, go, step_head?_append hds]
    cases hs : step cap s c cs.head? with
    | next s₁ =>
      rw [hs] at h
      rw [List.length_cons, Nat.add_comm cs.length, ← Nat.add_assoc]
      exact ih h
    | cut s₁ =>
      rw [hs] at h
      cases h
    | reject s₁ =>
      rw [hs] at h
      cases h

/-- The scan of a source whose end the machine reaches. -/
theorem go_eq_of_lastState {cap offset : Nat} {s s' : State} {cs : List Char}
    (h : lastState cap s cs = some s') :
    go cap s offset cs = ⟨(finish s').reads, false, .ok (finish s').tokens.reverse⟩ := by
  have hend : go cap s offset (cs ++ []) = go cap s' (offset + cs.length) [] :=
    go_of_lastState h (by simp)
  rw [List.append_nil] at hend
  rw [hend, go]

theorem isDigit_head?_newline (ds : List Char) :
    ∀ c ∈ ('\n' :: ds).head?, c.isDigit = false := by
  rintro c ⟨⟩
  rfl

/-- A source that the cap cuts short is not scanned any further if a line is added. -/
theorem go_of_lastState_none {cap offset : Nat} {s : State} {cs : List Char} {ts : List Token}
    (hcs : (go cap s offset cs).result = .ok ts) (h : lastState cap s cs = none) (ds : List Char) :
    (go cap s offset cs).truncated = true ∧
      go cap s offset (cs ++ '\n' :: ds) = go cap s offset cs := by
  induction cs generalizing s offset with
  | nil => cases h
  | cons c cs ih =>
    rw [lastState] at h
    rw [List.cons_append, go, go, step_head?_append (isDigit_head?_newline ds)]
    rw [go] at hcs
    cases hs : step cap s c cs.head? with
    | next s' =>
      rw [hs] at hcs h
      exact ih hcs h
    | cut s' => exact ⟨rfl, rfl⟩
    | reject s' =>
      rw [hs] at hcs
      cases hcs

theorem accepts_newline (kind : Run) : kind.accepts '\n' = false := by
  cases kind <;> decide

/-- A newline finishes what the end of the source would finish. -/
theorem step_of_newline (cap : Nat) {s : State} (next : Option Char)
    (hm : ∀ text escaped, s.mode ≠ .string text escaped) :
    (∃ s', step cap s '\n' next = .cut s') ∨
      ∃ reads, step cap s '\n' next = .next ⟨.between, reads, (finish s).tokens⟩ := by
  obtain ⟨mode, reads, tokens⟩ := s
  cases mode with
  | string text escaped => exact absurd rfl (hm text escaped)
  | between =>
    by_cases hc : cap < reads + 1
    · exact .inl ⟨_, if_pos hc⟩
    · exact .inr ⟨reads + 1, if_neg hc⟩
  | run kind text =>
    by_cases hc : cap < reads + 1
    · exact .inl ⟨_, if_pos hc⟩
    · have hrun : step cap ⟨.run kind text, reads, tokens⟩ '\n' next =
          start cap (State.emit ⟨.run kind text, reads + 1, tokens⟩ kind.kind text) '\n' next := by
        simp [step, State.count, hc, accepts_newline]
      rw [hrun]
      by_cases hc' : cap < reads + 1 + 1
      · exact .inl ⟨_, if_pos hc'⟩
      · exact .inr ⟨reads + 1 + 1, if_neg hc'⟩

/-- The machine goes over a source and a newline, unless the cap stops it, and is then between
tokens with the tokens of the source. -/
theorem go_newline {cap offset : Nat} {s : State} {cs ds : List Char} {ts : List Token}
    (hcs : (go cap s offset cs).result = .ok ts)
    (hm : ∀ text escaped, lastMode cap s cs ≠ some (.string text escaped))
    (ht : (go cap s offset (cs ++ '\n' :: ds)).truncated = false) :
    ∃ reads, go cap s offset (cs ++ '\n' :: ds) =
      go cap ⟨.between, reads, ts.reverse⟩ (offset + (cs.length + 1)) ds := by
  cases h : lastState cap s cs with
  | none =>
    obtain ⟨hcut, hgo⟩ := go_of_lastState_none hcs h ds
    rw [hgo, hcut] at ht
    cases ht
  | some s' =>
    have hnext : go cap s offset (cs ++ '\n' :: ds) =
        go cap s' (offset + cs.length) ('\n' :: ds) :=
      go_of_lastState h (isDigit_head?_newline ds)
    have hts : (finish s').tokens = ts.reverse := by
      rw [go_eq_of_lastState h] at hcs
      cases hcs
      exact (List.reverse_reverse _).symm
    have hm' : ∀ text escaped, s'.mode ≠ .string text escaped := by
      intro text escaped hmode
      exact hm text escaped (by rw [lastMode_eq, h, Option.map_some, hmode])
    rw [hnext, go] at ht ⊢
    rcases step_of_newline cap ds.head? hm' with ⟨s₁, hstep⟩ | ⟨reads, hstep⟩
    · rw [hstep] at ht
      cases ht
    · rw [hstep, hts]
      exact ⟨reads, rfl⟩

/-! ### Scanning after something else -/

/-- The state with attempts to read and tokens of earlier characters put before its own. -/
def State.after (reads : Nat) (tokens : List Token) (s : State) : State :=
  { s with reads := reads + s.reads, tokens := s.tokens ++ tokens }

/-- A step with its state changed. -/
def Step.map (f : State → State) : Step → Step
  | .next s => .next (f s)
  | .cut s => .cut (f s)
  | .reject s => .reject (f s)

/-- What a scan comes to if other characters stand before: their tokens come first, and offsets
count from their start. -/
def prepend (offset : Nat) (tokens : List Token) :
    Except (Nat × Char) (List Token) → Except (Nat × Char) (List Token)
  | .ok ts => .ok (tokens ++ ts)
  | .error (o, c) => .error (offset + o, c)

theorem start_after (cap k : Nat) (a : List Token) (s : State) (c : Char) (next : Option Char) :
    (∃ s', start cap (s.after k a) c next = .cut s') ∨
      start cap (s.after k a) c next = (start cap s c next).map (State.after k a) := by
  by_cases hc : cap < k + s.reads + 1
  · exact .inl ⟨_, if_pos hc⟩
  · have hc' : ¬ cap < s.reads + 1 := by omega
    refine .inr ?_
    simp only [start, State.count, State.after, hc, hc', if_false]
    split_ifs <;> rfl

/-- A machine that has read other characters before may be stopped by the cap where it would not
be stopped otherwise; apart from that, it does the same. -/
theorem step_after (cap k : Nat) (a : List Token) (s : State) (c : Char) (next : Option Char) :
    (∃ s', step cap (s.after k a) c next = .cut s') ∨
      step cap (s.after k a) c next = (step cap s c next).map (State.after k a) := by
  obtain ⟨mode, reads, tokens⟩ := s
  cases mode with
  | between => exact start_after cap k a _ c next
  | run kind text =>
    by_cases hc : cap < k + reads + 1
    · exact .inl ⟨_, if_pos hc⟩
    · have hc' : ¬ cap < reads + 1 := by omega
      simp only [step, State.after, State.count, hc, hc', if_false]
      by_cases hk : kind.accepts c
      · simp only [hk, if_true]
        exact .inr rfl
      · simp only [hk]
        exact start_after cap k a
          (State.emit ⟨.run kind text, reads + 1, tokens⟩ kind.kind text) c next
  | string text escaped =>
    by_cases hc : cap < k + reads + 1
    · exact .inl ⟨_, if_pos hc⟩
    · have hc' : ¬ cap < reads + 1 := by omega
      refine .inr ?_
      simp only [step, State.after, State.count, hc, hc', if_false]
      split_ifs <;> rfl

theorem go_after {cap k o offset : Nat} {a : List Token} {s : State} {cs : List Char}
    (ht : (go cap (s.after k a) (o + offset) cs).truncated = false) :
    (go cap s offset cs).truncated = false ∧
      (go cap (s.after k a) (o + offset) cs).result =
        prepend o a.reverse (go cap s offset cs).result := by
  induction cs generalizing s offset with
  | nil =>
    obtain ⟨mode, reads, tokens⟩ := s
    refine ⟨rfl, ?_⟩
    cases mode <;> simp [go, finish, State.after, State.count, State.emit, State.become, prepend]
  | cons c cs ih =>
    rw [go] at ht ⊢
    rw [go]
    rcases step_after cap k a s c cs.head? with ⟨s', h⟩ | h
    · rw [h] at ht
      cases ht
    · rw [h] at ht ⊢
      cases hs : step cap s c cs.head? with
      | next s' =>
        rw [hs] at ht
        exact ih ht
      | cut s' =>
        rw [hs] at ht
        cases ht
      | reject s' => exact ⟨rfl, rfl⟩

/-! ### Tokens of a joined source -/

/-- The scan of two sources that are joined by a newline: what the second one comes to, with the
tokens and the characters of the first one before. -/
theorem scan_join {cap : Nat} {cs ds : List Char} {ts : List Token}
    (hcs : (scan cap cs).result = .ok ts) (hm : endsInString cap cs = false)
    (ht : (scan cap (cs ++ '\n' :: ds)).truncated = false) :
    (scan cap ds).truncated = false ∧
      (scan cap (cs ++ '\n' :: ds)).result = prepend (cs.length + 1) ts (scan cap ds).result := by
  have hmode : ∀ text escaped, lastMode cap {} cs ≠ some (.string text escaped) := by
    intro text escaped h
    simp [endsInString, h] at hm
  obtain ⟨reads, hr⟩ := go_newline hcs hmode ht
  -- What follows the newline starts with the tokens and the attempts made so far.
  have hafter : (⟨.between, reads, ts.reverse⟩ : State) = State.after reads ts.reverse {} := by
    simp [State.after]
  have hgo : scan cap (cs ++ '\n' :: ds) =
      go cap (State.after reads ts.reverse {}) (cs.length + 1 + 0) ds := by
    rw [scan, hr, hafter, Nat.zero_add, Nat.add_zero]
  rw [hgo] at ht ⊢
  have hds := go_after ht
  rwa [List.reverse_reverse] at hds

theorem toList_join (s t : String) : (s ++ "\n" ++ t).toList = s.toList ++ '\n' :: t.toList := by
  simp [String.toList_append]

/-- The tokens of two sources that are joined by a newline. -/
theorem tokenize_join {limit : Int} {s t : String} {ts us : List Token}
    (hs : tokenize limit s = .ok ts) (ht : tokenize limit t = .ok us)
    (hm : endsInString (effectiveCap limit) s.toList = false)
    (hcap : (scan (effectiveCap limit) (s ++ "\n" ++ t).toList).truncated = false) :
    tokenize limit (s ++ "\n" ++ t) = .ok (ts ++ us) := by
  unfold tokenize at hs ht ⊢
  rw [tokens_eq_ok] at hs ht ⊢
  rw [toList_join] at hcap ⊢
  rw [(scan_join hs hm hcap).2, ht, prepend]

/-- A fault in the second of two sources that are joined by a newline. -/
theorem tokenize_join_error {limit : Int} {s t : String} {ts : List Token} {e : SyntaxError}
    (hs : tokenize limit s = .ok ts) (ht : tokenize limit t = .error e)
    (hm : endsInString (effectiveCap limit) s.toList = false)
    (hcap : (scan (effectiveCap limit) (s ++ "\n" ++ t).toList).truncated = false) :
    tokenize limit (s ++ "\n" ++ t) = .error
      ⟨s.length + 1 + e.offset, ⟨s.toList.count '\n' + 1 + e.position.line, e.position.column⟩,
        e.char⟩ := by
  unfold tokenize at hs ht ⊢
  rw [tokens_eq_ok] at hs
  rw [toList_join] at hcap ⊢
  have hjoin := (scan_join hs hm hcap).2
  unfold Scan.tokens at ht ⊢
  cases hr : (scan (effectiveCap limit) t.toList).result with
  | ok us =>
    rw [hr] at ht
    cases ht
  | error fault =>
    obtain ⟨offset, c⟩ := fault
    rw [hr] at ht hjoin
    cases ht
    simp only [hjoin, prepend]
    rw [SyntaxError.locate_newline, String.length_toList]
    rfl

end Scan

/-! ### Trees of a joined source -/

namespace Reading

/-- The branches `inner`, `outer` with more nodes, newest first, before those of the top level. -/
def stackOnto (base : List Node) : List Node → List (List Node) → Reading
  | inner, [] => ⟨inner ++ base, []⟩
  | inner, parent :: outer =>
    let r := stackOnto base parent outer
    ⟨inner, r.inner :: r.outer⟩

/-- A reading with more nodes, newest first, before those of the top level. -/
def onto (base : List Node) (r : Reading) : Reading := stackOnto base r.inner r.outer

theorem step_onto (base : List Node) (r : Reading) (t : Token) :
    (r.onto base).step t = (r.step t).onto base := by
  obtain ⟨inner, outer⟩ := r
  obtain ⟨kind, text⟩ := t
  cases kind with
  | openParen => rfl
  | closeParen =>
    match outer with
    | [] => rfl
    | [parent] => rfl
    | parent :: grand :: outer => rfl
  | _ => cases outer <;> rfl

theorem run_onto (base : List Node) (r : Reading) (ts : List Token) :
    (r.onto base).run ts = (r.run ts).onto base := by
  induction ts generalizing r with
  | nil => rfl
  | cons t ts ih =>
    show ((r.onto base).step t).run ts = _
    rw [step_onto, ih]
    rfl

theorem forest_onto (base : List Node) (r : Reading) :
    (r.onto base).forest = base.reverse ++ r.forest := by
  obtain ⟨inner, outer⟩ := r
  induction outer generalizing inner with
  | nil => simp [onto, stackOnto, forest, close]
  | cons parent outer ih =>
    have h := ih (.branch inner.reverse :: parent)
    cases outer <;> exact h

end Reading

/-- If a list of tokens leaves no branch open, what follows is read as if it stood alone. -/
theorem Node.forestOf_append {ts us : List Token} (h : (Reading.run {} ts).height = 0) :
    forestOf (ts ++ us) = forestOf ts ++ forestOf us := by
  unfold forestOf
  rw [Reading.run, List.foldl_append]
  change (Reading.run (Reading.run {} ts) us).forest = _
  generalize Reading.run {} ts = r at h ⊢
  obtain ⟨inner, outer⟩ := r
  obtain rfl : outer = [] := List.length_eq_zero_iff.1 h
  have honto : (⟨inner, []⟩ : Reading) = Reading.onto inner {} := by
    simp [Reading.onto, Reading.stackOnto]
  rw [honto, Reading.run_onto, Reading.forest_onto, ← honto]
  rfl

/-! ### Joined sources -/

/-- **Joining by a newline is compositional.** Suppose that a source can be scanned and does not
end inside a string, and that the cap suffices for the joined source. If what follows can be scanned
alone, the joined source has the tokens of the one and then those of the other, so that open lists
add up. If not, the joined source fails at the same character: its offset is shifted by the first
source and the newline, its line by the lines of the first source, and its column is the same. -/
theorem tokens_and_faults_of_joined {limit : Int} {s t : String} {ts : List Token}
    (hs : tokenize limit s = .ok ts)
    (hstring : Scan.endsInString (effectiveCap limit) s.toList = false)
    (hcap : (scan (effectiveCap limit) (s ++ "\n" ++ t).toList).truncated = false) :
    (∀ us, tokenize limit t = .ok us →
      tokenize limit (s ++ "\n" ++ t) = .ok (ts ++ us) ∧
      (effectiveCap limit = effectiveCap 0 →
        openLists (s ++ "\n" ++ t) = openLists s + openLists t)) ∧
    ∀ e, tokenize limit t = .error e →
      tokenize limit (s ++ "\n" ++ t) = .error
        { offset := s.length + 1 + e.offset
          position := ⟨s.toList.count '\n' + 1 + e.position.line, e.position.column⟩
          char := e.char } := by
  refine ⟨fun us ht => ?_, fun e ht => Scan.tokenize_join_error hs ht hstring hcap⟩
  have hjoin := Scan.tokenize_join hs ht hstring hcap
  refine ⟨hjoin, fun husual => ?_⟩
  rw [openLists_of_ok husual hjoin, openLists_of_ok husual hs, openLists_of_ok husual ht,
    Token.balance_append]

/-- A minus sign at the end of a line and a digit on the next one are two tokens; a fault in the
second line of what follows is one in the fourth line of the whole. -/
theorem tokens_and_faults_of_joined_minus :
    tokenize 0 ("(f\n-" ++ "\n" ++ "1)") =
        .ok [.opening, .sym "f", .sym "-", ⟨.number, "1"⟩, .closing] ∧
      openLists ("(f\n-" ++ "\n" ++ "1)") = openLists "(f\n-" + openLists "1)" ∧
      tokenize 0 "1)\n #" = .error ⟨4, ⟨2, 2⟩, '#'⟩ ∧
      tokenize 0 ("(f\n-" ++ "\n" ++ "1)\n #") = .error ⟨9, ⟨4, 2⟩, '#'⟩ := by
  have hs : tokenize 0 "(f\n-" = .ok [.opening, .sym "f", .sym "-"] := rfl
  have ht : tokenize 0 "1)" = .ok [⟨.number, "1"⟩, .closing] := rfl
  have he : tokenize 0 "1)\n #" = .error ⟨4, ⟨2, 2⟩, '#'⟩ := rfl
  have hcap : ∀ t : String, (scan (effectiveCap 0) ("(f\n-".toList ++ '\n' :: t.toList)).truncated =
      false → (scan (effectiveCap 0) ("(f\n-" ++ "\n" ++ t).toList).truncated = false := by
    intro t h
    rwa [Scan.toList_join]
  obtain ⟨hok, -⟩ := tokens_and_faults_of_joined (t := "1)") hs rfl (hcap _ rfl)
  obtain ⟨-, herror⟩ := tokens_and_faults_of_joined (t := "1)\n #") hs rfl (hcap _ rfl)
  obtain ⟨htokens, hopen⟩ := hok _ ht
  exact ⟨htokens, hopen rfl, he, herror _ he⟩

end Lisplet
