import Mathlib.Tactic.SplitIfs
import Lisplet.Proofs.FaultPosition

/-!
# Entries of the history

An input goes into the history as one line, with a blank for each newline. Between tokens a newline
and a blank are skipped alike, and both end a run; so the machine goes over the line as it went over
the input, attempt by attempt, and only the texts of strings can tell the two apart.

* `Token.onOneLine`: a token of an input, as it is found on the line;
* `Scan.step_onOneLine`, `Scan.go_onOneLine`: the machine on the line, character by character;
* `Token.onOneLine_eq_self_iff`: the tokens that stay what they are;
* `history_entry_scans_alike`: the scan of an entry.
-/

namespace Lisplet

/-! ### Texts on one line -/

/-- A blank for a newline. -/
def blankNewline (c : Char) : Char := if c = '\n' then ' ' else c

theorem blankNewline_of_ne {c : Char} (h : c ≠ '\n') : blankNewline c = c := if_neg h

theorem isDigit_blankNewline (c : Char) : (blankNewline c).isDigit = c.isDigit := by
  by_cases h : c = '\n'
  · subst h
    rfl
  · rw [blankNewline_of_ne h]

theorem startsNumber_blankNewline (c : Char) (next : Option Char) :
    startsNumber c (next.map blankNewline) = startsNumber c next := by
  cases next <;> simp [startsNumber, isDigit_blankNewline]

theorem toList_historyEntry (text : String) :
    (Repl.historyEntry text).toList = text.toList.map blankNewline := by
  rw [Repl.historyEntry, String.toList_ofList]
  rfl

/-- A token as it is found when its source is put on one line: newlines in a string are blanks. -/
def Token.onOneLine (t : Token) : Token :=
  match t.kind with
  | .string => ⟨.string, Repl.historyEntry t.text⟩
  | _ => t

theorem blankNewline_eq_self_iff {c : Char} : blankNewline c = c ↔ c ≠ '\n' := by
  by_cases hc : c = '\n'
  · subst hc
    decide
  · simp [blankNewline_of_ne hc, hc]

theorem historyEntry_eq_self_iff {text : String} :
    Repl.historyEntry text = text ↔ '\n' ∉ text.toList := by
  have hmap := List.map_inj_left (l := text.toList) (f := blankNewline) (g := id)
  simp only [List.map_id, id, blankNewline_eq_self_iff] at hmap
  rw [← String.toList_inj, toList_historyEntry, hmap]
  exact ⟨fun h hmem => h _ hmem rfl, fun h c hc heq => h (heq ▸ hc)⟩

/-- Only a string with a newline is changed. -/
theorem Token.onOneLine_eq_self_iff {t : Token} :
    t.onOneLine = t ↔ (t.kind = .string → '\n' ∉ t.text.toList) := by
  obtain ⟨kind, text⟩ := t
  cases kind with
  | string => simp [onOneLine, historyEntry_eq_self_iff]
  | _ => simp [onOneLine]

namespace Scan

/-! ### The machine on one line -/

/-- The mode of the machine when the source is put on one line. No run has a newline in it. -/
def Mode.onOneLine : Mode → Mode
  | .between => .between
  | .run kind text => .run kind text
  | .string text escaped => .string (text.map blankNewline) escaped

/-- The state of the machine when the source is put on one line. -/
def State.onOneLine (s : State) : State :=
  { s with mode := s.mode.onOneLine, tokens := s.tokens.map Token.onOneLine }

theorem onOneLine_emit_run (s : State) (kind : Run) (text : List Char) :
    (s.emit kind.kind text).onOneLine = s.onOneLine.emit kind.kind text := by
  cases kind <;> rfl

theorem onOneLine_emit_string (s : State) (text : List Char) :
    (s.emit .string text).onOneLine = s.onOneLine.emit .string (text.map blankNewline) := by
  have htext : Repl.historyEntry (String.ofList text.reverse) =
      String.ofList (text.map blankNewline).reverse := by
    rw [← String.toList_inj, toList_historyEntry, String.toList_ofList, String.toList_ofList,
      List.map_reverse]
  simp [State.onOneLine, State.emit, Mode.onOneLine, Token.onOneLine, htext]

theorem start_onOneLine (cap : Nat) (s : State) (c : Char) (next : Option Char) :
    start cap s.onOneLine (blankNewline c) (next.map blankNewline) =
      (start cap s c next).map State.onOneLine := by
  have hreads : s.onOneLine.count.reads = s.count.reads := rfl
  by_cases hc : c = '\n'
  · subst hc
    by_cases hcap : cap < s.count.reads
    · simp [start, hreads, hcap, Step.map]
      rfl
    · simp [start, hreads, hcap, Step.map, blankNewline]
      rfl
  · rw [blankNewline_of_ne hc]
    simp only [start, startsNumber_blankNewline, hreads]
    split_ifs <;> rfl

theorem accepts_blankNewline (kind : Run) (c : Char) :
    kind.accepts (blankNewline c) = kind.accepts c := by
  by_cases hc : c = '\n'
  · subst hc
    cases kind <;> decide
  · rw [blankNewline_of_ne hc]

/-- A character that is not a newline or a blank is found on the line where it was. -/
theorem blankNewline_eq_iff {c d : Char} (hd : d ≠ '\n') (hd' : d ≠ ' ') :
    blankNewline c = d ↔ c = d := by
  by_cases hc : c = '\n'
  · subst hc
    exact ⟨fun h => absurd h.symm hd', fun h => absurd h.symm hd⟩
  · rw [blankNewline_of_ne hc]

/-- The machine does on the line what it does on the input. -/
theorem step_onOneLine (cap : Nat) (s : State) (c : Char) (next : Option Char) :
    step cap s.onOneLine (blankNewline c) (next.map blankNewline) =
      (step cap s c next).map State.onOneLine := by
  obtain ⟨mode, reads, tokens⟩ := s
  cases mode with
  | between => exact start_onOneLine cap _ c next
  | run kind text =>
    by_cases hcap : cap < reads + 1
    · simp only [step, State.onOneLine, Mode.onOneLine, State.count, hcap, if_true]
      rfl
    · simp only [step, State.onOneLine, Mode.onOneLine, State.count, hcap, if_false,
        accepts_blankNewline]
      by_cases hk : kind.accepts c
      · have hc : c ≠ '\n' := by
          rintro rfl
          simp [accepts_newline] at hk
        simp only [hk, if_true, blankNewline_of_ne hc]
        rfl
      · simp only [hk]
        have hstart := start_onOneLine cap
          (State.emit ⟨.run kind text, reads + 1, tokens⟩ kind.kind text) c next
        rw [onOneLine_emit_run] at hstart
        exact hstart
  | string text escaped =>
    have hquote : blankNewline c = '\x22' ↔ c = '\x22' :=
      blankNewline_eq_iff (by decide) (by decide)
    have hback : blankNewline c = '\\' ↔ c = '\\' :=
      blankNewline_eq_iff (by decide) (by decide)
    by_cases hcap : cap < reads + 1
    · simp only [step, State.onOneLine, Mode.onOneLine, State.count, hcap, if_true]
      rfl
    · simp only [step, State.onOneLine, Mode.onOneLine, State.count, hcap, hquote, hback, if_false]
      split_ifs
      · rfl
      · rfl
      · exact congrArg Step.next
          (onOneLine_emit_string ⟨.string text escaped, reads + 1, tokens⟩ text).symm
      · rfl

/-- A newline is never rejected. -/
theorem ne_newline_of_reject {cap : Nat} {s s' : State} {c : Char} {next : Option Char}
    (h : step cap s c next = .reject s') : c ≠ '\n' := by
  rintro rfl
  obtain ⟨-, hmode, -⟩ := step_reject h
  rcases step_of_newline cap next hmode with ⟨s₁, hcut⟩ | ⟨reads, hnext⟩
  · rw [hcut] at h
    cases h
  · rw [hnext] at h
    cases h

theorem finish_onOneLine (s : State) : finish s.onOneLine = (finish s).onOneLine := by
  obtain ⟨mode, reads, tokens⟩ := s
  cases mode with
  | between => rfl
  | run kind text =>
    have hemit := onOneLine_emit_run ⟨.run kind text, reads, tokens⟩ kind text
    exact congrArg (fun s => s.count.count) hemit.symm
  | string text escaped => rfl

/-- A scan as it goes when its source is put on one line. -/
def onOneLine (r : Scan) : Scan := { r with result := r.result.map (List.map Token.onOneLine) }

/-- The scan of the line is the scan of the input, but for newlines in strings. -/
theorem go_onOneLine (cap offset : Nat) (s : State) (cs : List Char) :
    go cap s.onOneLine offset (cs.map blankNewline) = (go cap s offset cs).onOneLine := by
  induction cs generalizing s offset with
  | nil =>
    rw [List.map_nil, go, go, finish_onOneLine]
    simp [onOneLine, State.onOneLine, Except.map]
  | cons c cs ih =>
    rw [List.map_cons, go, go, List.head?_map, step_onOneLine]
    cases hs : step cap s c cs.head? with
    | next s' => exact ih (offset + 1) s'
    | cut s' => simp [Step.map, onOneLine, State.onOneLine, Except.map]
    | reject s' =>
      rw [blankNewline_of_ne (ne_newline_of_reject hs)]
      rfl

end Scan

theorem scan_historyEntry (cap : Nat) (text : String) :
    scan cap (Repl.historyEntry text).toList = (scan cap text.toList).onOneLine := by
  rw [toList_historyEntry]
  exact Scan.go_onOneLine cap 0 {} text.toList

/-! ### Entries of the history -/

/-- An input that is evaluated is remembered on one line, however its evaluation ends. -/
theorem Repl.history_evaluate {fuel : Nat} {text : String} {s s' : State}
    (h : evaluate fuel text s = .go s') : s'.history = historyEntry text :: s.history := by
  unfold evaluate at h
  split at h
  · cases h
  · cases h
    rfl
  · rename_i v m _
    cases h
    obtain ⟨out, hout⟩ := ((s.remember text).drain m).exists_display v
    rw [hout]
    rfl

/-- **An entry of the history is scanned as its input was.** An input that is evaluated is
remembered on one line. Under every cap, this line takes as many attempts to read, is cut short if
and only if the input is, and fails if and only if the input does, at the same offset and character.
Otherwise it has the tokens of the input with blanks for the newlines in strings; so these are the
tokens of the input if and only if no string among them has a newline. -/
theorem history_entry_scans_alike (text : String) :
    (∀ fuel (s s' : Repl.State), Repl.evaluate fuel text s = .go s' →
      s'.history = Repl.historyEntry text :: s.history) ∧
    ∀ cap : Nat,
      (scan cap (Repl.historyEntry text).toList).reads = (scan cap text.toList).reads ∧
      (scan cap (Repl.historyEntry text).toList).truncated = (scan cap text.toList).truncated ∧
      (∀ offset c, (scan cap (Repl.historyEntry text).toList).result = .error (offset, c) ↔
        (scan cap text.toList).result = .error (offset, c)) ∧
      ∀ ts, (scan cap text.toList).result = .ok ts →
        (scan cap (Repl.historyEntry text).toList).result = .ok (ts.map Token.onOneLine) ∧
        ((scan cap (Repl.historyEntry text).toList).result = .ok ts ↔
          ∀ t ∈ ts, t.kind = .string → '\n' ∉ t.text.toList) := by
  refine ⟨fun fuel s s' h => Repl.history_evaluate h, fun cap => ?_⟩
  rw [scan_historyEntry]
  refine ⟨rfl, rfl, fun offset c => ?_, fun ts hts => ?_⟩
  · show (scan cap text.toList).result.map _ = _ ↔ _
    cases (scan cap text.toList).result <;> simp [Except.map]
  · have hline : (scan cap text.toList).onOneLine.result = .ok (ts.map Token.onOneLine) :=
      congrArg (Except.map (List.map Token.onOneLine)) hts
    have hsame := List.map_inj_left (l := ts) (f := Token.onOneLine) (g := id)
    simp only [List.map_id, id, Token.onOneLine_eq_self_iff] at hsame
    refine ⟨hline, ?_⟩
    rw [hline, Except.ok.injEq, hsame]

/-- A string over two lines behind a symbol at the end of a line: on one line there is another
string. Cut short before the string is closed, both have the same tokens; and a fault stays where it
is, in an entry as in the input that was evaluated. -/
theorem history_entry_scans_alike_over_lines :
    (scan 30 (Repl.historyEntry "f\n\"a\nb\"").toList).result =
        .ok [.sym "f", ⟨.string, "a b"⟩] ∧
      ¬ (scan 30 (Repl.historyEntry "f\n\"a\nb\"").toList).result =
        .ok [.sym "f", ⟨.string, "a\nb"⟩] ∧
      (scan 7 (Repl.historyEntry "f\n\"a\nb\"").toList).result = .ok [.sym "f"] ∧
      (∃ s', Repl.evaluate 0 "f\n#" { machine := {} } = .go s' ∧
        s'.history = [Repl.historyEntry "f\n#"]) ∧
      (scan 30 (Repl.historyEntry "f\n#").toList).result = .error (2, '#') := by
  obtain ⟨-, hstring⟩ := history_entry_scans_alike "f\n\"a\nb\""
  obtain ⟨hentry, hfault⟩ := history_entry_scans_alike "f\n#"
  obtain ⟨-, -, -, hwhole⟩ := hstring 30
  obtain ⟨-, -, -, hcut⟩ := hstring 7
  obtain ⟨-, -, herror, -⟩ := hfault 30
  obtain ⟨htokens, hsame⟩ := hwhole [.sym "f", ⟨.string, "a\nb"⟩] rfl
  refine ⟨htokens, fun h => ?_, (hcut [.sym "f"] rfl).2.2 (by decide),
    ⟨_, rfl, hentry 0 _ _ rfl⟩, (herror 2 '#').2 rfl⟩
  exact hsame.1 h ⟨.string, "a\nb"⟩ (by decide) rfl (by decide)

end Lisplet
