import Mathlib.Data.List.DropRight
import Lisplet.Proofs.Alike
import Lisplet.Proofs.Join
import Lisplet.Proofs.LongestLexeme
import Lisplet.Repl

/-!
# The place of a fault

A scan fails at the first character that starts no token where one has to start. Whether it does is
settled by the characters up to that one: a token is looked at one character ahead, but what is
looked for is a digit, and a digit starts a token. So the characters before the fault can be scanned
by themselves, and nothing that is added behind the fault takes it away.

* `Position.column_after`: the column, by the characters since the last newline;
* `Scan.step_reject`: what a character that is rejected is like;
* `Scan.go_error`, `Scan.go_of_reject`: the state in which a scan fails;
* `Scan.tokens_error_of_take`, `tokenize_append_error`: sources that have the same fault;
* `fault_is_final`: where a fault is, and that it stays.
-/

namespace Lisplet

/-! ### Columns -/

theorem Position.column_after (before : List Char) :
    (after before).column = (before.rtakeWhile (· ≠ '\n')).length + 1 := by
  induction before using List.reverseRecOn with
  | nil => rfl
  | append_singleton before c ih =>
    rw [after_concat, List.rtakeWhile_concat, advance]
    by_cases hc : c = '\n'
    · simp [hc]
    · simp [hc, ih]

namespace Scan

/-! ### Characters that are rejected -/

theorem start_reject {cap : Nat} {s s' : State} {c : Char} {next : Option Char}
    (h : start cap s c next = .reject s') :
    c.isDigit = false ∧ ∀ next', start cap s c next' = .reject s' := by
  have hcap : ¬ cap < s.reads + 1 := by
    intro hc
    simp [start, State.count, hc] at h
  simp only [start, State.count, hcap, if_false] at h ⊢
  split_ifs at h with h₁ h₂ h₃ h₄ h₅ h₆ h₇
  have hdigit : c.isDigit = false := by
    cases hd : c.isDigit with
    | false => rfl
    | true => simp [startsNumber, hd] at h₅
  -- Only a minus sign depends on what follows it, and it is never rejected.
  have hminus : c ≠ '-' := by
    rintro rfl
    exact h₇ rfl
  have hnumber : ∀ next', ¬ startsNumber c next' = true := by
    intro next'
    simp [startsNumber, hdigit, hminus]
  refine ⟨hdigit, fun next' => ?_⟩
  simp only [h₁, h₂, h₃, h₄, hnumber, h₆, h₇, if_false]
  exact h

/-- A character that is rejected is no digit, does not stand in a string, and is rejected whatever
follows it. -/
theorem step_reject {cap : Nat} {s s' : State} {c : Char} {next : Option Char}
    (h : step cap s c next = .reject s') :
    c.isDigit = false ∧ (∀ text escaped, s.mode ≠ .string text escaped) ∧
      ∀ next', step cap s c next' = .reject s' := by
  obtain ⟨mode, reads, tokens⟩ := s
  cases mode with
  | between =>
    obtain ⟨hdigit, hall⟩ := start_reject h
    exact ⟨hdigit, fun _ _ => Mode.noConfusion, hall⟩
  | run kind text =>
    simp only [step] at h ⊢
    split_ifs at h ⊢ with hc hk
    obtain ⟨hdigit, hall⟩ := start_reject h
    exact ⟨hdigit, fun _ _ => Mode.noConfusion, hall⟩
  | string text escaped =>
    simp only [step] at h
    split_ifs at h

/-- A scan that fails has reached the end of the characters before the fault. -/
theorem go_error {cap offset o : Nat} {s : State} {c : Char} {cs : List Char}
    (h : (go cap s offset cs).result = .error (o, c)) :
    ∃ before rest s₁ s₂, cs = before ++ c :: rest ∧ o = offset + before.length ∧
      lastState cap s before = some s₁ ∧ step cap s₁ c rest.head? = .reject s₂ := by
  induction cs generalizing s offset with
  | nil => cases h
  | cons d cs ih =>
    rw [go] at h
    cases hs : step cap s d cs.head? with
    | next s' =>
      rw [hs] at h
      obtain ⟨before, rest, s₁, s₂, rfl, rfl, hlast, hreject⟩ := ih h
      have hd : ∀ x ∈ (c :: rest).head?, x.isDigit = false := by
        rintro x ⟨⟩
        exact (step_reject hreject).1
      rw [step_head?_append hd] at hs
      refine ⟨d :: before, rest, s₁, s₂, rfl, ?_, ?_, hreject⟩
      · rw [List.length_cons, Nat.add_assoc, Nat.add_comm 1]
      · rw [lastState, hs]
        exact hlast
    | cut s' =>
      rw [hs] at h
      cases h
    | reject s' =>
      rw [hs] at h
      cases h
      exact ⟨[], cs, s, s', rfl, rfl, rfl, hs⟩

/-- What comes behind a character that is rejected makes no difference. -/
theorem go_of_reject {cap : Nat} {s s₁ s₂ : State} {c : Char} {before : List Char}
    {next : Option Char} (hlast : lastState cap s before = some s₁)
    (hreject : step cap s₁ c next = .reject s₂) (offset : Nat) (rest : List Char) :
    (go cap s offset (before ++ c :: rest)).result = .error (offset + before.length, c) := by
  obtain ⟨hdigit, -, hall⟩ := step_reject hreject
  have hd : ∀ x ∈ (c :: rest).head?, x.isDigit = false := by
    rintro x ⟨⟩
    exact hdigit
  rw [go_of_lastState hlast hd, go, hall]

/-- A fault of a source is at the character that is rejected after those before it. -/
theorem tokens_error {cap : Nat} {source : List Char} {e : SyntaxError}
    (h : (scan cap source).tokens source = .error e) :
    ∃ before rest s₁ s₂, source = before ++ e.char :: rest ∧
      e = ⟨before.length, .after before, e.char⟩ ∧
      lastState cap {} before = some s₁ ∧ step cap s₁ e.char rest.head? = .reject s₂ := by
  obtain ⟨offset, c, hr, rfl⟩ := tokens_eq_error.1 h
  obtain ⟨before, rest, s₁, s₂, rfl, rfl, hlast, hreject⟩ := go_error hr
  refine ⟨before, rest, s₁, s₂, rfl, ?_, hlast, hreject⟩
  rw [Nat.zero_add, SyntaxError.locate, List.take_left]

/-- The characters before a fault, which are scanned whole. -/
theorem scan_before_fault {cap : Nat} {s₁ s₂ : State} {c : Char} {before : List Char}
    {next : Option Char} (hlast : lastState cap {} before = some s₁)
    (hreject : step cap s₁ c next = .reject s₂) :
    (∃ ts, (scan cap before).tokens before = .ok ts) ∧ (scan cap before).truncated = false ∧
      endsInString cap before = false := by
  obtain ⟨-, hmode, -⟩ := step_reject hreject
  have hscan : scan cap before = ⟨_, false, .ok _⟩ := go_eq_of_lastState hlast
  refine ⟨⟨_, tokens_eq_ok.2 (congrArg Scan.result hscan)⟩, congrArg Scan.truncated hscan, ?_⟩
  rw [endsInString, lastMode_eq, hlast]
  cases hm : s₁.mode with
  | string text escaped => exact absurd hm (hmode text escaped)
  | between => simp [hm]
  | run kind text => simp [hm]

/-- A source that begins with the same characters, up to the fault, has the same fault. -/
theorem tokens_error_of_take {cap : Nat} {source other : List Char} {e : SyntaxError}
    (h : (scan cap source).tokens source = .error e)
    (hother : other.take (e.offset + 1) = source.take (e.offset + 1)) :
    (scan cap other).tokens other = .error e := by
  obtain ⟨before, rest, s₁, s₂, hsource, he, hlast, hreject⟩ := tokens_error h
  have hoffset : e.offset = before.length := congrArg SyntaxError.offset he
  have hfirst : other.take (before.length + 1) = before ++ [e.char] := by
    rw [← hoffset, hother, hsource, hoffset, List.take_length_add_append]
    rfl
  have hsplit : other = before ++ e.char :: other.drop (before.length + 1) := by
    have happend := List.take_append_drop (before.length + 1) other
    rw [hfirst, List.append_assoc, List.singleton_append] at happend
    exact happend.symm
  rw [hsplit, tokens_eq_error]
  refine ⟨before.length, e.char, ?_, ?_⟩
  · rw [scan, go_of_reject hlast hreject, Nat.zero_add]
  · rw [SyntaxError.locate, List.take_left]
    exact he

end Scan

/-! ### Faults that stay -/

/-- A fault stays whatever is added to a source. -/
theorem tokenize_append_error {limit : Int} {text : String} {e : SyntaxError}
    (h : tokenize limit text = .error e) (more : String) :
    tokenize limit (text ++ more) = .error e := by
  obtain ⟨before, rest, -, -, hsource, he, -, -⟩ := Scan.tokens_error h
  refine Scan.tokens_error_of_take h ?_
  have hle : e.offset + 1 ≤ text.toList.length := by
    rw [congrArg SyntaxError.offset he, hsource]
    simp
  rw [String.toList_append, List.take_append_of_le_length hle]

namespace Repl

/-- A text with a fault is not collected any further. -/
theorem step_of_fault {s : State} {line : String} {e : SyntaxError}
    (h : tokenize 0 (s.collected line) = .error e) (fuel : Nat) :
    step fuel s (.line line) = handle fuel (s.collected line) { s with pending := "" } := by
  have hopen : openLists (s.collected line) ≤ 0 := by
    simp [openLists, h]
  exact if_pos hopen

end Repl

/-- **A fault is final.** Let a source fail under a cap. The character of the fault stands at its
offset; its line is counted by the newlines before it, and its column by the characters since the
last newline. The characters before it are scanned by themselves, whole and not up to the inside of
a string, and every source with the same characters up to the fault and with it fails in the same
way. So a session is right to handle a text with a fault at once: whatever was added, the text would
have this fault, and to evaluate it would be to report it. -/
theorem fault_is_final :
    (∀ (cap : Nat) (source : List Char) (e : SyntaxError),
      (scan cap source).tokens source = .error e →
      source[e.offset]? = some e.char ∧
      e.position.line = 1 + (source.take e.offset).count '\n' ∧
      e.position.column = 1 + ((source.take e.offset).rtakeWhile (· ≠ '\n')).length ∧
      ((∃ ts, (scan cap (source.take e.offset)).tokens (source.take e.offset) = .ok ts) ∧
        (scan cap (source.take e.offset)).truncated = false ∧
        Scan.endsInString cap (source.take e.offset) = false) ∧
      ∀ other : List Char, other.take (e.offset + 1) = source.take (e.offset + 1) →
        (scan cap other).tokens other = .error e) ∧
    ∀ (session : Repl.State) (line : String) (e : SyntaxError),
      tokenize 0 (session.collected line) = .error e →
      (∀ fuel, Repl.step fuel session (.line line) =
        Repl.handle fuel (session.collected line) { session with pending := "" }) ∧
      ∀ more : String,
        tokenize 0 (session.collected line ++ more) = .error e ∧
        ∀ fuel m, Interpreter.evaluatePersistent fuel {} (session.collected line ++ more) m =
          .done (.error (.unreadable e)) m := by
  refine ⟨fun cap source e h => ?_, fun session line e h => ⟨Repl.step_of_fault h, fun more => ?_⟩⟩
  · obtain ⟨before, rest, s₁, s₂, hsource, he, hlast, hreject⟩ := Scan.tokens_error h
    have hoffset : e.offset = before.length := congrArg SyntaxError.offset he
    have hposition : e.position = .after before := congrArg SyntaxError.position he
    have hbefore : source.take e.offset = before := by
      rw [hsource, hoffset, List.take_left]
    rw [hbefore, hposition, Position.line_after, Position.column_after]
    refine ⟨?_, Nat.add_comm _ _, Nat.add_comm _ _, Scan.scan_before_fault hlast hreject,
      fun other hother => Scan.tokens_error_of_take h hother⟩
    rw [hoffset, hsource]
    simp
  · have hmore := tokenize_append_error h more
    refine ⟨hmore, fun fuel m => ?_⟩
    exact Action.bind_of_error (Interpreter.read_error hmore m)

/-- A dot after a minus sign on the second line, under a cap that just suffices for it: the sign is
a symbol, and no digit behind the dot makes it a number. -/
theorem fault_is_final_after_minus :
    (scan 7 "(a\n-.".toList).tokens "(a\n-.".toList = .error ⟨4, ⟨2, 2⟩, '.'⟩ ∧
      Scan.endsInString 7 "(a\n-".toList = false ∧
      (scan 7 "(a\n-.5)".toList).tokens "(a\n-.5)".toList = .error ⟨4, ⟨2, 2⟩, '.'⟩ ∧
      ∀ fuel, Repl.step fuel { machine := {}, pending := "(a" } (.line "-.") =
        Repl.handle fuel "(a\n-." { machine := {}, pending := "" } := by
  have h : (scan 7 "(a\n-.".toList).tokens "(a\n-.".toList = .error ⟨4, ⟨2, 2⟩, '.'⟩ := rfl
  obtain ⟨-, -, -, ⟨-, -, hstring⟩, hother⟩ := fault_is_final.1 _ _ _ h
  have hsession : tokenize 0 (Repl.State.collected "-." { machine := {}, pending := "(a" }) =
      .error ⟨4, ⟨2, 2⟩, '.'⟩ := rfl
  exact ⟨h, hstring, hother _ rfl, (fault_is_final.2 _ _ _ hsession).1⟩

end Lisplet
