import Mathlib.Tactic.SplitIfs
import Lisplet.Limits
import Lisplet.Node.Read

/-!
# Lexemes

What the scanner does with a counter, a mode and a character that is read twice can be said on the
characters that are left: at each place the longest lexeme is taken. A run is as many characters
of its class as there are, and a string goes to the first quote without a backslash before it.

* `stringBody`: the text of a string, and what follows it;
* `lexeme`: the first lexeme of a source;
* `lexFrom`: the tokens of a source, or the offset and the character where none starts;
* `Scan.go_eq_lexFrom`: a scan that the cap does not cut short finds just these;
* `capTrips`: whether a cap keeps a part of a source from being read, and `capTrips_of_le`: it
  does not if it is twice the length of the source.
-/

namespace Lisplet

/-! ### The longest lexeme -/

/-- The text of a string after its opening quote, each backslash replaced by the character after
it, and what follows the closing quote; none if the string is not closed. -/
def stringBody : List Char → Option (List Char × List Char)
  | [] => none
  | c :: rest =>
    if c = '\x22' then some ([], rest)
    else if c = '\\' then
      match rest with
      | [] => none
      | d :: rest => (stringBody rest).map fun (text, rest) => (d :: text, rest)
    else (stringBody rest).map fun (text, rest) => (c :: text, rest)

@[simp] theorem stringBody_quote (rest : List Char) :
    stringBody ('\x22' :: rest) = some ([], rest) := by
  rw [stringBody.eq_def]
  rfl

@[simp] theorem stringBody_backslash (d : Char) (rest : List Char) :
    stringBody ('\\' :: d :: rest) =
      (stringBody rest).map fun (text, rest) => (d :: text, rest) := by
  rw [stringBody.eq_def]
  rfl

theorem stringBody_of_ne {c : Char} (hq : ¬ c = '\x22') (hb : ¬ c = '\\') (rest : List Char) :
    stringBody (c :: rest) = (stringBody rest).map fun (text, rest) => (c :: text, rest) := by
  rw [stringBody.eq_def]
  simp only [hq, hb, if_false]

/-- A run of characters of one class after `text`, and what follows it. -/
def runLexeme (kind : Scan.Run) (text rest : List Char) : Option Token × List Char :=
  (some ⟨kind.kind, String.ofList (text ++ rest.takeWhile kind.accepts)⟩,
    rest.dropWhile kind.accepts)

/-- The token of the first lexeme, if it has one, and the characters after it; none if no lexeme
starts with `c`. A string that is not closed is a lexeme without a token. -/
def lexeme (c : Char) (rest : List Char) : Option (Option Token × List Char) :=
  if c = ' ' || c = '\n' then some (none, rest)
  else if c = '(' then some (some .opening, rest)
  else if c = ')' then some (some .closing, rest)
  else if c = '\x22' then
    match stringBody rest with
    | some (text, rest) => some (some ⟨.string, String.ofList text⟩, rest)
    | none => some (none, [])
  else if startsNumber c rest.head? then some (runLexeme .number [c] rest)
  else if c = '\x27' then some (runLexeme .quote [] rest)
  else if isSymbolStart c then some (runLexeme .symbol [c] rest)
  else none

theorem length_stringBody {cs text rest : List Char} (h : stringBody cs = some (text, rest)) :
    rest.length < cs.length := by
  fun_induction stringBody cs generalizing text rest with
  | case1 => cases h
  | case2 =>
    cases h
    exact Nat.lt_succ_self _
  | case3 => cases h
  | case4 d rest' hc ih =>
    obtain ⟨⟨text', rest''⟩, hr, he⟩ := Option.map_eq_some_iff.1 h
    cases he
    have := ih hr
    simp only [List.length_cons]
    omega
  | case5 c rest' hc hb ih =>
    obtain ⟨⟨text', rest''⟩, hr, he⟩ := Option.map_eq_some_iff.1 h
    cases he
    have := ih hr
    simp only [List.length_cons]
    omega

theorem length_lexeme {c : Char} {rest rest' : List Char} {t : Option Token}
    (h : lexeme c rest = some (t, rest')) : rest'.length ≤ rest.length := by
  have hrun : ∀ kind text, (runLexeme kind text rest).2.length ≤ rest.length :=
    fun kind text => (List.dropWhile_suffix _).length_le
  unfold lexeme at h
  split_ifs at h with h₁ h₂ h₃ h₄ h₅ h₆ h₇
  · cases h
    exact Nat.le_refl _
  · cases h
    exact Nat.le_refl _
  · cases h
    exact Nat.le_refl _
  · split at h
    · rename_i text r hb
      cases h
      exact Nat.le_of_lt (length_stringBody hb)
    · cases h
      exact Nat.zero_le _
  · cases h
    exact hrun .number [c]
  · cases h
    exact hrun .quote []
  · cases h
    exact hrun .symbol [c]

/-- The tokens of a source whose first character stands at `offset`, or the offset and the
character where no lexeme starts. -/
def lexFrom (offset : Nat) : List Char → Except (Nat × Char) (List Token)
  | [] => .ok []
  | c :: rest =>
    match _h : lexeme c rest with
    | none => .error (offset, c)
    | some (t, rest') =>
      (lexFrom (offset + (rest.length + 1 - rest'.length)) rest').map (t.toList ++ ·)
termination_by cs => cs.length
decreasing_by exact Nat.lt_succ_of_le (length_lexeme _h)

@[simp] theorem lexFrom_nil (offset : Nat) : lexFrom offset [] = .ok [] := by
  rw [lexFrom]

theorem lexFrom_of_some {offset : Nat} {c : Char} {rest rest' : List Char} {t : Option Token}
    (h : lexeme c rest = some (t, rest')) :
    lexFrom offset (c :: rest) =
      (lexFrom (offset + (rest.length + 1 - rest'.length)) rest').map (t.toList ++ ·) := by
  rw [lexFrom]
  split
  · rename_i h'
    rw [h] at h'
    cases h'
  · rename_i h'
    rw [h] at h'
    cases h'
    rfl

namespace Scan

/-! ### A scan goes from lexeme to lexeme -/

/-- In every mode, the cap is looked at first. -/
theorem step_of_cap_lt {cap : Nat} {s : State} (h : cap < s.reads + 1) (c : Char)
    (next : Option Char) : ∃ s', step cap s c next = .cut s' := by
  obtain ⟨mode, reads, tokens⟩ := s
  cases mode <;> exact ⟨_, if_pos h⟩

/-- A scan that is not cut short has an attempt left for the next character. -/
theorem not_cap_lt {cap offset : Nat} {s : State} {c : Char} {cs : List Char}
    (ht : (go cap s offset (c :: cs)).truncated = false) : ¬ cap < s.reads + 1 := by
  intro hc
  obtain ⟨s', h⟩ := step_of_cap_lt hc c cs.head?
  rw [go, h] at ht
  cases ht

/-- Inside a run, the scan goes on between tokens after the last character of the run. -/
theorem go_run {cap offset reads : Nat} {kind : Run} {text cs : List Char} {tokens : List Token}
    (ht : (go cap ⟨.run kind text, reads, tokens⟩ offset cs).truncated = false) :
    ∃ reads', go cap ⟨.run kind text, reads, tokens⟩ offset cs =
      go cap ⟨.between, reads',
          ⟨kind.kind, String.ofList (text.reverse ++ cs.takeWhile kind.accepts)⟩ :: tokens⟩
        (offset + (cs.length - (cs.dropWhile kind.accepts).length))
        (cs.dropWhile kind.accepts) := by
  induction cs generalizing text reads offset with
  | nil => exact ⟨reads + 1, by simp [go, finish, State.emit, State.count]⟩
  | cons c cs ih =>
    have hc : ¬ cap < reads + 1 := not_cap_lt ht
    by_cases hk : kind.accepts c
    · have hgo : go cap ⟨.run kind text, reads, tokens⟩ offset (c :: cs) =
          go cap ⟨.run kind (c :: text), reads + 1, tokens⟩ (offset + 1) cs := by
        simp only [go, step, State.count, State.become, hc, hk, if_false, if_true]
      rw [hgo] at ht ⊢
      obtain ⟨reads', h⟩ := ih ht
      refine ⟨reads', h.trans ?_⟩
      have hle := List.IsSuffix.length_le (List.dropWhile_suffix kind.accepts (l := cs))
      have hoff : offset + 1 + (cs.length - (cs.dropWhile kind.accepts).length) =
          offset + (cs.length + 1 - (cs.dropWhile kind.accepts).length) := by omega
      simp [hk, hoff]
    · refine ⟨reads + 1, ?_⟩
      simp [go, step, State.count, State.emit, hc, hk]

/-- A backslash in a string and the character after it. -/
theorem go_escape {cap offset reads : Nat} {d : Char} {text cs : List Char} {tokens : List Token}
    (ht : (go cap ⟨.string text false, reads, tokens⟩ offset ('\\' :: d :: cs)).truncated = false) :
    go cap ⟨.string text false, reads, tokens⟩ offset ('\\' :: d :: cs) =
      go cap ⟨.string (d :: text) false, reads + 1 + 1, tokens⟩ (offset + 1 + 1) cs := by
  have hc : ¬ cap < reads + 1 := not_cap_lt ht
  have hgo : go cap ⟨.string text false, reads, tokens⟩ offset ('\\' :: d :: cs) =
      go cap ⟨.string text true, reads + 1, tokens⟩ (offset + 1) (d :: cs) := by
    rw [go]
    simp [step, State.count, State.become, hc]
  rw [hgo] at ht ⊢
  have hc' : ¬ cap < reads + 1 + 1 := not_cap_lt ht
  simp [go, step, State.count, State.become, hc']

/-- A character of a string that stands for itself. -/
theorem go_plain {cap offset reads : Nat} {c : Char} {text cs : List Char} {tokens : List Token}
    (hq : ¬ c = '\x22') (hb : ¬ c = '\\')
    (ht : (go cap ⟨.string text false, reads, tokens⟩ offset (c :: cs)).truncated = false) :
    go cap ⟨.string text false, reads, tokens⟩ offset (c :: cs) =
      go cap ⟨.string (c :: text) false, reads + 1, tokens⟩ (offset + 1) cs := by
  have hc : ¬ cap < reads + 1 := not_cap_lt ht
  simp [go, step, State.count, State.become, hc, hq, hb]

/-- Inside a string that is closed, the scan goes on between tokens after the closing quote. -/
theorem go_string {cap offset reads : Nat} {text text' cs rest : List Char} {tokens : List Token}
    (h : stringBody cs = some (text', rest))
    (ht : (go cap ⟨.string text false, reads, tokens⟩ offset cs).truncated = false) :
    ∃ reads', go cap ⟨.string text false, reads, tokens⟩ offset cs =
      go cap ⟨.between, reads', ⟨.string, String.ofList (text.reverse ++ text')⟩ :: tokens⟩
        (offset + (cs.length - rest.length)) rest := by
  fun_induction stringBody cs generalizing text reads offset text' rest with
  | case1 => cases h
  | case2 cs =>
    cases h
    have hc : ¬ cap < reads + 1 := not_cap_lt ht
    exact ⟨reads + 1, by simp [go, step, State.count, State.emit, hc]⟩
  | case3 => cases h
  | case4 d cs hq ih =>
    obtain ⟨⟨text'', rest'⟩, hr, he⟩ := Option.map_eq_some_iff.1 h
    cases he
    have hstep := go_escape ht
    rw [hstep] at ht ⊢
    obtain ⟨reads', hgo⟩ := ih hr ht
    have hlt := length_stringBody hr
    have hoff : offset + 1 + 1 + (cs.length - rest.length) =
        offset + (cs.length + 1 + 1 - rest.length) := by omega
    exact ⟨reads', by simp [hgo, hoff]⟩
  | case5 c cs hq hb ih =>
    obtain ⟨⟨text'', rest'⟩, hr, he⟩ := Option.map_eq_some_iff.1 h
    cases he
    have hstep := go_plain hq hb ht
    rw [hstep] at ht ⊢
    obtain ⟨reads', hgo⟩ := ih hr ht
    have hlt := length_stringBody hr
    have hoff : offset + 1 + (cs.length - rest.length) =
        offset + (cs.length + 1 - rest.length) := by omega
    exact ⟨reads', by simp [hgo, hoff]⟩

/-- Inside a string that is not closed, the scan reaches the end without a token for it. -/
theorem go_string_of_none {cap offset reads : Nat} {text cs : List Char} {tokens : List Token}
    (h : stringBody cs = none)
    (ht : (go cap ⟨.string text false, reads, tokens⟩ offset cs).truncated = false) :
    ∃ reads', go cap ⟨.string text false, reads, tokens⟩ offset cs =
      go cap ⟨.between, reads', tokens⟩ (offset + cs.length) [] := by
  fun_induction stringBody cs generalizing text reads offset with
  | case1 => exact ⟨reads + 1, by simp [go, finish, State.become, State.count]⟩
  | case2 cs => cases h
  | case3 =>
    have hc : ¬ cap < reads + 1 := not_cap_lt ht
    exact ⟨reads + 1 + 1, by simp [go, step, finish, State.become, State.count, hc]⟩
  | case4 d cs hq ih =>
    have hstep := go_escape ht
    rw [hstep] at ht ⊢
    obtain ⟨reads', hgo⟩ := ih (Option.map_eq_none_iff.1 h) ht
    exact ⟨reads', hgo.trans (by simp [go])⟩
  | case5 c cs hq hb ih =>
    have hstep := go_plain hq hb ht
    rw [hstep] at ht ⊢
    obtain ⟨reads', hgo⟩ := ih (Option.map_eq_none_iff.1 h) ht
    exact ⟨reads', hgo.trans (by simp [go])⟩

/-- Between tokens, the scan goes over the first lexeme and is between tokens again. -/
theorem go_lexeme {cap offset reads : Nat} {c : Char} {rest rest' : List Char} {t : Option Token}
    {tokens : List Token} (h : lexeme c rest = some (t, rest'))
    (ht : (go cap ⟨.between, reads, tokens⟩ offset (c :: rest)).truncated = false) :
    ∃ reads', go cap ⟨.between, reads, tokens⟩ offset (c :: rest) =
      go cap ⟨.between, reads', t.toList ++ tokens⟩
        (offset + (rest.length + 1 - rest'.length)) rest' := by
  have hc : ¬ cap < reads + 1 := not_cap_lt ht
  have hle := length_lexeme h
  have hoff : offset + 1 + (rest.length - rest'.length) =
      offset + (rest.length + 1 - rest'.length) := by omega
  rw [← hoff]
  rw [go] at ht ⊢
  simp only [step, start, State.count, hc, if_false] at ht ⊢
  unfold lexeme at h
  split_ifs at h ht ⊢ with h₁ h₂ h₃ h₄ h₅ h₆ h₇
  · cases h
    exact ⟨reads + 1, by simp⟩
  · cases h
    exact ⟨reads + 1, by subst h₂; simp [State.emit]; rfl⟩
  · cases h
    exact ⟨reads + 1, by subst h₃; simp [State.emit]; rfl⟩
  · split at h
    · rename_i text r hb
      cases h
      exact go_string hb ht
    · rename_i hb
      cases h
      exact go_string_of_none hb ht
  · cases h
    exact go_run ht
  · cases h
    exact go_run ht
  · cases h
    exact go_run ht

theorem go_of_lexeme_none {cap offset reads : Nat} {c : Char} {rest : List Char}
    {tokens : List Token} (h : lexeme c rest = none)
    (ht : (go cap ⟨.between, reads, tokens⟩ offset (c :: rest)).truncated = false) :
    (go cap ⟨.between, reads, tokens⟩ offset (c :: rest)).result = .error (offset, c) := by
  have hc : ¬ cap < reads + 1 := not_cap_lt ht
  unfold lexeme at h
  split_ifs at h with h₁ h₂ h₃ h₄ h₅ h₆ h₇
  · split at h <;> cases h
  · simp [go, step, start, State.count, hc, h₁, h₂, h₃, h₄, h₅, h₆, h₇]

/-- A scan that the cap does not cut short takes the longest lexeme at each place. -/
theorem go_eq_lexFrom {cap offset reads : Nat} {cs : List Char} {tokens : List Token}
    (ht : (go cap ⟨.between, reads, tokens⟩ offset cs).truncated = false) :
    (go cap ⟨.between, reads, tokens⟩ offset cs).result =
      (lexFrom offset cs).map (tokens.reverse ++ ·) := by
  -- The induction is over the lexemes, each of which leaves fewer characters.
  fun_induction lexFrom offset cs generalizing reads tokens with
  | case1 offset => simp [go, finish, State.count, Except.map]
  | case2 offset c rest h => exact go_of_lexeme_none h ht
  | case3 offset c rest t rest' h ih =>
    obtain ⟨reads', hgo⟩ := go_lexeme h ht
    rw [hgo] at ht ⊢
    rw [ih ht]
    cases lexFrom (offset + (rest.length + 1 - rest'.length)) rest' with
    | error e => rfl
    | ok ts => cases t <;> simp [Except.map]

theorem tokens_eq_ok {source : List Char} {s : Scan} {ts : List Token} :
    s.tokens source = .ok ts ↔ s.result = .ok ts := by
  unfold Scan.tokens
  cases s.result <;> simp

/-! ### Caps that are large enough -/

theorem start_of_le {cap : Nat} {s : State} (h : s.reads + 1 ≤ cap) (c : Char)
    (next : Option Char) :
    (∃ s', start cap s c next = .next s' ∧ s'.reads = s.reads + 1) ∨
      ∃ s', start cap s c next = .reject s' := by
  simp only [start, State.count, Nat.not_lt.2 h, if_false]
  split_ifs
  rotate_right
  · exact .inr ⟨_, rfl⟩
  all_goals exact .inl ⟨_, rfl, rfl⟩

/-- A character is read at most twice, and only the cap stops the machine. -/
theorem step_of_le {cap : Nat} {s : State} (h : s.reads + 2 ≤ cap) (c : Char)
    (next : Option Char) :
    (∃ s', step cap s c next = .next s' ∧ s'.reads ≤ s.reads + 2) ∨
      ∃ s', step cap s c next = .reject s' := by
  obtain ⟨mode, reads, tokens⟩ := s
  have hc : ¬ cap < reads + 1 := Nat.not_lt.2 (Nat.le_of_succ_le h)
  cases mode with
  | between =>
    have hle : reads + 1 ≤ cap := Nat.le_of_succ_le h
    rcases start_of_le (s := ⟨.between, reads, tokens⟩) hle c next with ⟨s', hs, hr⟩ | ⟨s', hs⟩
    · exact .inl ⟨s', hs, hr ▸ Nat.le_succ _⟩
    · exact .inr ⟨s', hs⟩
  | run kind text =>
    by_cases hk : kind.accepts c
    · refine .inl ⟨⟨.run kind (c :: text), reads + 1, tokens⟩, ?_, Nat.le_succ _⟩
      simp [step, State.count, State.become, hc, hk]
    · have hrun : step cap ⟨.run kind text, reads, tokens⟩ c next =
          start cap (State.emit ⟨.run kind text, reads + 1, tokens⟩ kind.kind text) c next := by
        simp [step, State.count, hc, hk]
      rw [hrun]
      rcases start_of_le (s := State.emit ⟨.run kind text, reads + 1, tokens⟩ kind.kind text) h
        c next with ⟨s', hs, hr⟩ | ⟨s', hs⟩
      · exact .inl ⟨s', hs, Nat.le_of_eq hr⟩
      · exact .inr ⟨s', hs⟩
  | string text escaped =>
    left
    simp only [step, State.count, hc, if_false]
    split_ifs <;> exact ⟨_, rfl, Nat.le_succ _⟩

theorem go_of_le {cap offset : Nat} {s : State} {cs : List Char}
    (h : s.reads + 2 * cs.length ≤ cap) : (go cap s offset cs).truncated = false := by
  induction cs generalizing s offset with
  | nil => rfl
  | cons c cs ih =>
    rw [List.length_cons] at h
    rw [go]
    rcases step_of_le (by omega : s.reads + 2 ≤ cap) c cs.head? with ⟨s', hs, hr⟩ | ⟨s', hs⟩
    · rw [hs]
      exact ih (by omega)
    · rw [hs]

end Scan

/-- No lexeme has more than one token. -/
theorem length_lexFrom {offset : Nat} {cs : List Char} {ts : List Token}
    (h : lexFrom offset cs = .ok ts) : ts.length ≤ cs.length := by
  fun_induction lexFrom offset cs generalizing ts with
  | case1 offset =>
    cases h
    exact Nat.le_refl _
  | case2 offset c rest hl => cases h
  | case3 offset c rest t rest' hl ih =>
    have hle := length_lexeme hl
    cases hr : lexFrom (offset + (rest.length + 1 - rest'.length)) rest' with
    | error e =>
      rw [hr] at h
      cases h
    | ok us =>
      rw [hr] at h
      cases h
      have hus := ih hr
      have ht : t.toList.length ≤ 1 := by cases t <;> simp
      rw [List.length_append, List.length_cons]
      omega

/-- Whether a cap keeps a part of a source from being read. -/
def capTrips (limits : Limits) (source : String) : Bool :=
  (scan (effectiveCap limits.tokenizerReads) source.toList).truncated ||
    match tokenize limits.tokenizerReads source with
    | .ok ts => Node.isCut (effectiveCap limits.parserReads) ts
    | .error _ => false

/-- If the cap does not cut the scan of a source short, its tokens are those of its lexemes. -/
theorem tokenize_eq_ok {limit : Int} {source : String} {ts : List Token}
    (ht : (scan (effectiveCap limit) source.toList).truncated = false) :
    tokenize limit source = .ok ts ↔ lexFrom 0 source.toList = .ok ts := by
  unfold tokenize
  rw [Scan.tokens_eq_ok]
  unfold scan at ht ⊢
  rw [Scan.go_eq_lexFrom ht]
  cases lexFrom 0 source.toList <;> simp [Except.map]

/-- The open lists of a source that can be scanned, under a limit that stands for the usual cap. -/
theorem openLists_of_ok {limit : Int} {source : String} {ts : List Token}
    (hcap : effectiveCap limit = effectiveCap 0) (h : tokenize limit source = .ok ts) :
    openLists source = Token.balance ts := by
  unfold tokenize at h
  rw [hcap] at h
  simp only [openLists, tokenize, h]

/-- A source can be read whole if the caps are twice its length. -/
theorem capTrips_of_le {limits : Limits} {source : String}
    (hs : 2 * source.length ≤ effectiveCap limits.tokenizerReads)
    (hp : source.length ≤ effectiveCap limits.parserReads) : capTrips limits source = false := by
  have ht : (scan (effectiveCap limits.tokenizerReads) source.toList).truncated = false :=
    Scan.go_of_le (by rw [String.length_toList, Nat.zero_add]; exact hs)
  rw [capTrips, ht, Bool.false_or]
  split
  · rename_i ts h
    have hle := length_lexFrom ((tokenize_eq_ok ht).1 h)
    rw [String.length_toList] at hle
    exact decide_eq_false (Nat.not_lt.2 (Nat.le_trans hle hp))
  · rfl

end Lisplet
