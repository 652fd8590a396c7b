import Lisplet.Proofs.Join
import Lisplet.Proofs.TokenCount
import Lisplet.Repl

/-!
# Going on with an input

An input that leaves lists open is continued on the next line. What is typed there is scanned
together with all that came before, so it counts only as far as the cap on attempts to read still
reaches. How far that is depends on the state in which the machine arrives at the next line, and
there are two cases. If an attempt is left once a string that was open is closed, the input can be
ended on that line. If none is left, no text whatsoever changes the number of open lists.

* `Scan.State.leastReads`: how many attempts it takes at least to be between two tokens;
* `Scan.State.Spent`, `Scan.go_spent`: the cap leaves no attempt for a parenthesis;
* `Scan.go_nextLine`: the machine after a newline and the quote of an open string;
* `Scan.scan_nextLine`: the two cases;
* `pending_input_finished_iff`: when a pending input can be finished by typing;
* `overlong_pending_never_finished`: it cannot always.
-/

namespace Lisplet

namespace Scan

/-! ### No attempts left -/

theorem reads_of_start_cut {cap : Nat} {s s' : State} {c : Char} {next : Option Char}
    (h : start cap s c next = .cut s') : cap < s'.reads := by
  by_cases hc : cap < s.reads + 1
  · have hcut : start cap s c next = .cut s.count := if_pos hc
    rw [hcut] at h
    cases h
    exact hc
  · simp only [start, State.count, hc, if_false] at h
    split_ifs at h

/-- The cap is exceeded when it stops the machine. -/
theorem reads_of_cut {cap : Nat} {s s' : State} {c : Char} {next : Option Char}
    (h : step cap s c next = .cut s') : cap < s'.reads := by
  obtain ⟨mode, reads, tokens⟩ := s
  cases mode with
  | between => exact reads_of_start_cut h
  | run kind text =>
    by_cases hc : cap < reads + 1
    · simp only [step, State.count, hc, if_true] at h
      cases h
      exact Nat.lt_succ_of_lt hc
    · simp only [step, State.count, hc, if_false] at h
      split_ifs at h
      exact reads_of_start_cut h
  | string text escaped =>
    by_cases hc : cap < reads + 1
    · simp only [step, State.count, hc, if_true] at h
      cases h
      exact Nat.lt_succ_of_lt hc
    · simp only [step, State.count, hc, if_false] at h
      split_ifs at h

/-- So it is at the end of a scan that is cut short. -/
theorem reads_of_truncated {cap offset : Nat} {s : State} {cs : List Char}
    (h : (go cap s offset cs).truncated = true) : cap < (go cap s offset cs).reads := by
  induction cs generalizing s offset with
  | nil => cases h
  | cons c cs ih =>
    rw [go] at h ⊢
    cases hs : step cap s c cs.head? with
    | next s' =>
      rw [hs] at h
      exact ih h
    | cut s' => exact reads_of_cut hs
    | reject s' =>
      rw [hs] at h
      cases h

@[simp] theorem nesting_run (kind : Run) (text : String) :
    Token.nesting ⟨kind.kind, text⟩ = 0 := by
  cases kind <;> rfl

@[simp] theorem balance_finish (s : State) :
    Token.balance (finish s).tokens = Token.balance s.tokens := by
  obtain ⟨mode, reads, tokens⟩ := s
  cases mode <;> simp [finish, State.count, State.emit, State.become]

/-- The least number of attempts with which the machine can be between two tokens: a run takes one
more to end, and so does a string. -/
def State.leastReads (s : State) : Nat := s.reads + s.mode.begun

/-- The cap leaves no attempt for a parenthesis, and `b` lists are open. -/
structure State.Spent (cap : Nat) (b : Int) (s : State) : Prop where
  reads : cap ≤ s.leastReads
  balance : Token.balance s.tokens = b

/-- A step after which it is so, or at which the cap stops the machine. -/
def Step.Spent (cap : Nat) (b : Int) : Step → Prop
  | .next s => s.Spent cap b
  | .cut s => cap < s.reads ∧ Token.balance s.tokens = b
  | .reject _ => False

/-- A scan that uses up the cap and finds `b` lists open. -/
structure Spent (cap : Nat) (b : Int) (r : Scan) : Prop where
  reads : cap < r.reads
  balance : r.result.map Token.balance = .ok b

theorem step_spent {cap : Nat} {b : Int} {s : State} (hs : s.Spent cap b) (c : Char)
    (next : Option Char) : (step cap s c next).Spent cap b := by
  obtain ⟨mode, reads, tokens⟩ := s
  obtain ⟨hreads, hbalance⟩ := hs
  simp only [State.leastReads] at hreads hbalance
  cases mode with
  | between =>
    have hc : cap < reads + 1 := Nat.lt_succ_of_le hreads
    have hcut : step cap ⟨.between, reads, tokens⟩ c next = .cut ⟨.between, reads + 1, tokens⟩ :=
      if_pos hc
    rw [hcut]
    exact ⟨hc, hbalance⟩
  | run kind text =>
    simp only [Mode.begun] at hreads
    by_cases hc : cap < reads + 1
    · simp only [step, State.count, hc, if_true]
      exact ⟨Nat.lt_succ_of_lt hc, hbalance⟩
    · simp only [step, State.count, hc, if_false]
      split_ifs
      · exact ⟨Nat.le_succ_of_le hreads, hbalance⟩
      · -- The character that ends the run is not read a second time.
        have hc' : cap < reads + 1 + 1 := Nat.lt_succ_of_le hreads
        simp only [start, State.count, State.emit, hc', if_true]
        exact ⟨hc', by simpa using hbalance⟩
  | string text escaped =>
    simp only [Mode.begun] at hreads
    by_cases hc : cap < reads + 1
    · simp only [step, State.count, hc, if_true]
      exact ⟨Nat.lt_succ_of_lt hc, hbalance⟩
    · simp only [step, State.count, hc, if_false]
      split_ifs
      · exact ⟨Nat.le_succ_of_le hreads, hbalance⟩
      · exact ⟨Nat.le_succ_of_le hreads, hbalance⟩
      · exact ⟨hreads, by simpa [State.emit, Token.nesting] using hbalance⟩
      · exact ⟨Nat.le_succ_of_le hreads, hbalance⟩

/-- What follows makes no difference to the open lists once the attempts are spent. -/
theorem go_spent {cap offset : Nat} {b : Int} {s : State} (hs : s.Spent cap b) (cs : List Char) :
    (go cap s offset cs).Spent cap b := by
  induction cs generalizing s offset with
  | nil =>
    refine ⟨?_, ?_⟩
    · obtain ⟨mode, reads, tokens⟩ := s
      have hreads := hs.reads
      cases mode <;>
        simp [State.leastReads, Mode.begun, go, finish, State.count, State.emit,
          State.become] at hreads ⊢ <;> omega
    · simp [go, Except.map, hs.balance]
  | cons c cs ih =>
    have hstep := step_spent hs c cs.head?
    rw [go]
    cases h : step cap s c cs.head? with
    | next s' =>
      rw [h] at hstep
      exact ih hstep
    | cut s' =>
      rw [h] at hstep
      exact ⟨hstep.1, by simpa [Except.map] using hstep.2⟩
    | reject s' =>
      rw [h] at hstep
      cases hstep

/-! ### The next line -/

/-- The state after a newline, if the cap allows it. -/
def State.newline (s : State) : State :=
  match s.mode with
  | .between => s.count
  | .run kind text => (s.emit kind.kind text).count.count
  | .string text _ => (s.become (.string ('\n' :: text) false)).count

theorem leastReads_newline (s : State) : s.newline.leastReads = s.leastReads + 1 := by
  obtain ⟨mode, reads, tokens⟩ := s
  cases mode <;> rfl

theorem balance_newline (s : State) : Token.balance s.newline.tokens = Token.balance s.tokens := by
  obtain ⟨mode, reads, tokens⟩ := s
  cases mode <;> simp [State.newline, State.count, State.emit, State.become]

theorem step_newline_of_lt {cap : Nat} {s : State} (h : s.leastReads < cap) (next : Option Char) :
    step cap s '\n' next = .next s.newline := by
  obtain ⟨mode, reads, tokens⟩ := s
  simp only [State.leastReads] at h
  cases mode with
  | between => exact if_neg (Nat.not_lt.2 h)
  | run kind text =>
    simp only [Mode.begun] at h
    have hc : ¬ cap < reads + 1 := by omega
    have hc' : ¬ cap < reads + 1 + 1 := by omega
    simp [step, start, State.count, State.emit, State.newline, hc, hc', accepts_newline]
  | string text escaped =>
    simp only [Mode.begun] at h
    have hc : ¬ cap < reads + 1 := by omega
    cases escaped <;> simp [step, State.count, State.become, State.newline, hc]

/-- If the newline takes the last attempt, nothing after it counts. -/
theorem go_newline_spent {cap offset : Nat} {s : State} (h : cap ≤ s.leastReads + 1)
    (ds : List Char) : (go cap s offset ('\n' :: ds)).Spent cap (Token.balance s.tokens) := by
  rcases Nat.lt_or_ge s.leastReads cap with hlt | hge
  · rw [go, step_newline_of_lt hlt]
    exact go_spent ⟨by rwa [leastReads_newline], balance_newline s⟩ ds
  · exact go_spent ⟨hge, rfl⟩ _

/-- What closes a string that is open. -/
def Mode.closer : Mode → List Char
  | .string _ _ => ['\x22']
  | _ => []

/-- After a newline and the quote of an open string, the machine is between two tokens, as early as
it can be. -/
theorem go_nextLine {cap : Nat} {s : State} (h : s.leastReads < cap) (offset : Nat) :
    ∃ ts, Token.balance ts = Token.balance s.tokens ∧
      ∀ ds, go cap s offset ('\n' :: (s.mode.closer ++ ds)) =
        go cap ⟨.between, s.leastReads + 1, ts⟩ (offset + 1 + s.mode.closer.length) ds := by
  have hgo : ∀ ds, go cap s offset ('\n' :: ds) = go cap s.newline (offset + 1) ds := by
    intro ds
    rw [go, step_newline_of_lt h]
  obtain ⟨mode, reads, tokens⟩ := s
  cases mode with
  | between => exact ⟨tokens, rfl, fun ds => hgo ds⟩
  | run kind text =>
    exact ⟨⟨kind.kind, String.ofList text.reverse⟩ :: tokens, by simp, fun ds => hgo ds⟩
  | string text escaped =>
    refine ⟨⟨.string, String.ofList ('\n' :: text).reverse⟩ :: tokens, ?_, fun ds => ?_⟩
    · simp [Token.nesting]
    · have hc : ¬ cap < reads + 1 + 1 := Nat.not_lt.2 h
      have hquote : step cap ⟨.string ('\n' :: text) false, reads + 1, tokens⟩ '\x22' ds.head? =
          .next ⟨.between, reads + 1 + 1,
            ⟨.string, String.ofList ('\n' :: text).reverse⟩ :: tokens⟩ := by
        simp [step, State.count, State.emit, hc]
      refine (hgo _).trans ?_
      show go cap ⟨.string ('\n' :: text) false, reads + 1, tokens⟩ (offset + 1) ('\x22' :: ds) = _
      rw [go, hquote]
      rfl

/-- What closes the string in which the scan of a source ends, if it ends in one. -/
def closer (cap : Nat) (source : List Char) : List Char :=
  if endsInString cap source then ['\x22'] else []

theorem closer_of_lastState {cap : Nat} {cs : List Char} {s : State}
    (h : lastState cap {} cs = some s) : closer cap cs = s.mode.closer := by
  obtain ⟨mode, reads, tokens⟩ := s
  rw [closer, endsInString, lastMode_eq, h]
  cases mode <;> rfl

/-- Either no text on the next line counts, or once an open string is closed there the machine is
between two tokens, with an attempt left. -/
theorem scan_nextLine {cap : Nat} {cs : List Char} {ts : List Token}
    (h : (scan cap cs).result = .ok ts) :
    (∀ ds, (scan cap (cs ++ '\n' :: ds)).Spent cap (Token.balance ts)) ∨
      ∃ reads offset us, reads < cap ∧ Token.balance us = Token.balance ts ∧
        ∀ ds, scan cap (cs ++ '\n' :: (closer cap cs ++ ds)) =
          go cap ⟨.between, reads, us⟩ offset ds := by
  cases hlast : lastState cap {} cs with
  | none =>
    refine .inl fun ds => ?_
    obtain ⟨hcut, hgo⟩ := go_of_lastState_none h hlast ds
    rw [scan, hgo]
    exact ⟨reads_of_truncated hcut, congrArg (Except.map Token.balance) h⟩
  | some s =>
    have hscan : ∀ ds, scan cap (cs ++ '\n' :: ds) = go cap s (0 + cs.length) ('\n' :: ds) :=
      fun ds => go_of_lastState hlast (isDigit_head?_newline ds)
    have hbalance : Token.balance s.tokens = Token.balance ts := by
      rw [scan, go_eq_of_lastState hlast] at h
      cases h
      simp
    rcases Nat.lt_or_ge (s.leastReads + 1) cap with hlt | hge
    · obtain ⟨us, hus, hgo⟩ := go_nextLine (Nat.lt_of_succ_lt hlt) (0 + cs.length)
      have hnext : ∀ ds, scan cap (cs ++ '\n' :: (closer cap cs ++ ds)) = go cap
          ⟨.between, s.leastReads + 1, us⟩ (0 + cs.length + 1 + s.mode.closer.length) ds := by
        intro ds
        rw [hscan, closer_of_lastState hlast, hgo]
      exact .inr ⟨_, _, us, hlt, hus.trans hbalance, hnext⟩
    · refine .inl fun ds => ?_
      rw [hscan, ← hbalance]
      exact go_newline_spent hge ds

/-! ### Closing lists -/

/-- Each closing parenthesis for which there is an attempt left closes a list. -/
theorem go_closers {cap reads offset : Nat} {ts : List Token} (h : reads ≤ cap) (n : Nat) :
    (go cap ⟨.between, reads, ts⟩ offset (List.replicate n ')')).result.map Token.balance =
      .ok (Token.balance ts - min n (cap - reads) : Int) := by
  induction n generalizing reads offset ts with
  | zero => simp [go, finish, State.count, Except.map]
  | succ n ih =>
    rcases Nat.lt_or_ge reads cap with hlt | hge
    · have hc : ¬ cap < reads + 1 := Nat.not_lt.2 hlt
      have hstep : step cap ⟨.between, reads, ts⟩ ')' (List.replicate n ')').head? =
          .next ⟨.between, reads + 1, Token.closing :: ts⟩ := if_neg hc
      rw [List.replicate_succ, go, hstep]
      refine (ih hlt).trans ?_
      rw [Token.balance_cons]
      congr 1
      show -1 + Token.balance ts - _ = _
      omega
    · -- Not even the first one is read.
      have hspent : State.Spent cap (Token.balance ts) ⟨.between, reads, ts⟩ := ⟨hge, rfl⟩
      refine (go_spent hspent _).balance.trans ?_
      congr 1
      omega

/-- Blanks take one attempt each. -/
theorem go_blanks {cap reads offset : Nat} {ts : List Token} {cs : List Char} (n : Nat)
    (h : reads + n ≤ cap) :
    go cap ⟨.between, reads, ts⟩ offset (List.replicate n ' ' ++ cs) =
      go cap ⟨.between, reads + n, ts⟩ (offset + n) cs := by
  induction n generalizing reads offset with
  | zero => rfl
  | succ n ih =>
    have hc : ¬ cap < reads + 1 := by omega
    have hstep : step cap ⟨.between, reads, ts⟩ ' ' (List.replicate n ' ' ++ cs).head? =
        .next ⟨.between, reads + 1, ts⟩ := if_neg hc
    rw [List.replicate_succ, List.cons_append, go, hstep]
    refine (ih (by omega)).trans ?_
    rw [Nat.add_assoc, Nat.add_assoc, Nat.add_comm 1]

/-- Where an attempt is left, a character that starts no token is rejected. -/
theorem go_number_sign {cap reads offset : Nat} {ts : List Token} (h : reads < cap) :
    (go cap ⟨.between, reads, ts⟩ offset ['#']).result = .error (offset, '#') := by
  have hc : ¬ cap < reads + 1 := Nat.not_lt.2 h
  have hstep : step cap ⟨.between, reads, ts⟩ '#' none = .reject ⟨.between, reads + 1, ts⟩ :=
    if_neg hc
  simp only [go, List.head?_nil, hstep]

end Scan

/-! ### Finishing an input -/

theorem openLists_of_balance {source : String} {b : Int}
    (h : (scan (effectiveCap 0) source.toList).result.map Token.balance = .ok b) :
    openLists source = b := by
  unfold openLists tokenize Scan.tokens
  cases hr : (scan (effectiveCap 0) source.toList).result with
  | ok ts =>
    rw [hr] at h
    cases h
    rfl
  | error fault =>
    rw [hr] at h
    cases h

theorem openLists_of_error {source : String} {fault : Nat × Char}
    (h : (scan (effectiveCap 0) source.toList).result = .error fault) : openLists source = 0 := by
  unfold openLists tokenize Scan.tokens
  rw [h]

/-- The quote that closes the string in which a source ends, if it ends in one. -/
def closingQuote (s : String) : String := String.ofList (Scan.closer (effectiveCap 0) s.toList)

/-- The line that closes the string in which a source ends and then every open list. -/
def finishingLine (s : String) : String :=
  closingQuote s ++ String.ofList (List.replicate (openLists s).toNat ')')

/-- How many attempts to read it takes to find the end of the next line, if an open string is closed
there and nothing else is typed. -/
def nextLineReads (s : String) : Nat :=
  (scan (effectiveCap 0) (s ++ "\n" ++ closingQuote s).toList).reads

theorem newline_not_mem_closingQuote (s : String) : '\n' ∉ (closingQuote s).toList := by
  rw [closingQuote, String.toList_ofList, Scan.closer]
  split_ifs <;> simp

theorem toList_nextLine (s : String) (cs : List Char) :
    (s ++ "\n" ++ (closingQuote s ++ String.ofList cs)).toList =
      s.toList ++ '\n' :: (Scan.closer (effectiveCap 0) s.toList ++ cs) := by
  rw [Scan.toList_join, String.toList_append, closingQuote, String.toList_ofList,
    String.toList_ofList]

/-- A pending source is lost if the end of the next line is beyond the cap: the number of open
lists stays what it is. Otherwise the next line can be made to fail, and closing parentheses close
lists up to the cap. -/
theorem openLists_nextLine {s : String} (h : 0 < openLists s) :
    effectiveCap 0 < nextLineReads s ∧ (∀ t, openLists (s ++ "\n" ++ t) = openLists s) ∨
      nextLineReads s ≤ effectiveCap 0 ∧
        openLists (s ++ "\n" ++ (closingQuote s ++ "#")) = 0 ∧
        ∀ n : Nat, openLists (s ++ "\n" ++ (closingQuote s ++ String.ofList (.replicate n ')'))) =
          openLists s - min n (effectiveCap 0 + 1 - nextLineReads s : Nat) := by
  obtain ⟨ts, hts⟩ : ∃ ts, tokenize 0 s = .ok ts := by
    cases ht : tokenize 0 s with
    | ok ts => exact ⟨ts, rfl⟩
    | error e => simp [openLists, ht] at h
  have hopen : openLists s = Token.balance ts := openLists_of_ok rfl hts
  rw [hopen]
  rcases Scan.scan_nextLine (Scan.tokens_eq_ok.1 hts) with
    hspent | ⟨reads, offset, us, hlt, hus, hgo⟩
  · refine .inl ⟨?_, fun t => ?_⟩
    · rw [nextLineReads, Scan.toList_join]
      exact (hspent _).reads
    · apply openLists_of_balance
      rw [Scan.toList_join]
      exact (hspent _).balance
  · have hreads : nextLineReads s = reads + 1 := by
      have hnil := congrArg Scan.reads (hgo [])
      rw [List.append_nil] at hnil
      rw [nextLineReads, Scan.toList_join, closingQuote, String.toList_ofList, hnil]
      rfl
    refine .inr ⟨by omega, ?_, fun n => ?_⟩
    · apply openLists_of_error
      refine (congrArg (fun cs => (scan _ cs).result) (toList_nextLine s ['#'])).trans ?_
      rw [hgo]
      exact Scan.go_number_sign hlt
    · apply openLists_of_balance
      rw [toList_nextLine, hgo, Scan.go_closers (Nat.le_of_lt hlt), hus, hreads,
        Nat.add_sub_add_right]

/-- A session goes on collecting while lists are open. -/
theorem Repl.step_of_open {session : State} {t : String} (fuel : Nat)
    (hpending : 0 < openLists session.pending)
    (hline : 0 < openLists (session.pending ++ "\n" ++ t)) :
    step fuel session (.line t) = .go { session with pending := session.pending ++ "\n" ++ t } := by
  have hne : session.pending.isEmpty = false := by
    cases he : session.pending.isEmpty with
    | false => rfl
    | true =>
      rw [String.isEmpty_iff.1 he] at hpending
      exact absurd hpending (by decide)
  have hcollected : session.collected t = session.pending ++ "\n" ++ t := by
    rw [State.collected, hne]
    rfl
  rw [step, hcollected, if_neg (Int.not_le.2 hline)]

/-- **When a pending input can be finished.** Let lists be open in a source. There is a line that
ends the input exactly if the cap has an attempt left behind the newline and the quote of an open
string; the line that closes the open string and all open lists does so exactly if there is one for
each of its parentheses. If none is left, then no text, of however many lines, changes the number of
open lists, and a session only collects it. -/
theorem pending_input_finished_iff {s : String} (h : 0 < openLists s) :
    ((∃ t : String, '\n' ∉ t.toList ∧ openLists (s ++ "\n" ++ t) ≤ 0) ↔
      nextLineReads s ≤ effectiveCap 0) ∧
    ('\n' ∉ (finishingLine s).toList ∧
      (openLists (s ++ "\n" ++ finishingLine s) = 0 ↔
        nextLineReads s + openLists s ≤ effectiveCap 0 + 1)) ∧
    (effectiveCap 0 < nextLineReads s → ∀ t,
      openLists (s ++ "\n" ++ t) = openLists s ∧
      ∀ (fuel : Nat) (session : Repl.State), session.pending = s →
        Repl.step fuel session (.line t) = .go { session with pending := s ++ "\n" ++ t }) := by
  have hquote := newline_not_mem_closingQuote s
  have hline : '\n' ∉ (finishingLine s).toList := by
    simp [finishingLine, String.toList_append, hquote]
  rcases openLists_nextLine h with ⟨hcap, hlost⟩ | ⟨hcap, hfail, hclose⟩
  · refine ⟨⟨?_, fun hle => ?_⟩, ⟨hline, ?_⟩, fun _ t => ⟨hlost t, ?_⟩⟩
    · rintro ⟨t, -, ht⟩
      have := hlost t
      omega
    · omega
    · have := hlost (finishingLine s)
      omega
    · rintro fuel session rfl
      exact Repl.step_of_open fuel h (by rwa [hlost t])
  · refine ⟨⟨fun _ => hcap, fun _ => ⟨closingQuote s ++ "#", ?_, ?_⟩⟩, ⟨hline, ?_⟩, fun hlt => ?_⟩
    · simp [String.toList_append, hquote]
    · omega
    · have := hclose (openLists s).toNat
      rw [finishingLine]
      omega
    · omega

/-- A text that ends inside a string, right after a backslash: the newline is escaped, so a quote
and two parentheses finish it. -/
theorem pending_input_finished_iff_in_string :
    0 < openLists "(f (g \"a\\" ∧
      openLists ("(f (g \"a\\" ++ "\n" ++ "\"))") = 0 := by
  have hline : finishingLine "(f (g \"a\\" = "\"))" := rfl
  have hpos : 0 < openLists "(f (g \"a\\" := by decide
  obtain ⟨-, ⟨-, hfinish⟩, -⟩ := pending_input_finished_iff hpos
  rw [hline] at hfinish
  exact ⟨hpos, hfinish.2 (by decide)⟩

/-! ### An input that cannot be finished -/

theorem Scan.spent_of_blanks {cap : Nat} (hcap : 0 < cap) (cs : List Char) :
    (scan cap ('(' :: (List.replicate cap ' ' ++ cs))).Spent cap 1 := by
  have hc : ¬ cap < 0 + 1 := Nat.not_lt.2 hcap
  have hstep : step cap {} '(' (List.replicate cap ' ' ++ cs).head? =
      .next ⟨.between, 1, [Token.opening]⟩ := if_neg hc
  have hgo : scan cap ('(' :: (List.replicate cap ' ' ++ cs)) =
      go cap ⟨.between, 1, [Token.opening]⟩ 1 (List.replicate cap ' ' ++ cs) := by
    rw [scan, go, hstep]
  -- The last blank is beyond the cap.
  obtain ⟨n, rfl⟩ := Nat.exists_eq_add_one.2 hcap
  rw [hgo, List.replicate_succ', List.append_assoc, go_blanks n (by omega)]
  have hspent : State.Spent (n + 1) 1 ⟨.between, 1 + n, [Token.opening]⟩ :=
    ⟨Nat.le_of_eq (Nat.add_comm n 1), rfl⟩
  exact go_spent hspent _

/-- An opening parenthesis and as many blanks as the cap allows attempts. -/
def overlong : String := String.ofList ('(' :: List.replicate (effectiveCap 0) ' ')

/-- A pending input cannot always be finished: after so many blanks, no text closes the list. -/
theorem overlong_pending_never_finished :
    0 < openLists overlong ∧ ∀ t, ¬ openLists (overlong ++ "\n" ++ t) ≤ 0 := by
  have hspent : ∀ cs, (scan (effectiveCap 0) (overlong.toList ++ cs)).Spent (effectiveCap 0) 1 := by
    intro cs
    rw [overlong, String.toList_ofList]
    exact Scan.spent_of_blanks (by decide) cs
  have hopen : openLists overlong = 1 := by
    apply openLists_of_balance
    simpa using (hspent []).balance
  refine ⟨by omega, fun t => ?_⟩
  have hjoined : openLists (overlong ++ "\n" ++ t) = 1 := by
    apply openLists_of_balance
    rw [Scan.toList_join]
    exact (hspent _).balance
  omega

end Lisplet
