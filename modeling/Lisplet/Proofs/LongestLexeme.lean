import Lisplet.Proofs.Render

/-!
# The rules of the longest lexeme

The lexemes of a source are given by rules that only look at the characters which are left: blanks
are skipped, a parenthesis is a token by itself, a string goes to the first quote without a
backslash before it, and a number, a quote or a symbol takes as many characters of its class as it
can. The scanner, with its modes and its count of attempts, follows these rules.

* `Longest`, `StringText`, `FirstLexeme`, `Tokenized`: the rules;
* `firstLexeme_iff`: the first lexeme is the one that the rules allow;
* `lexFrom_of_tokenized`, `exists_tokenized`: the rules give every source just one result;
* `scan_iff_tokenized`: a scan that the cap does not cut short follows the rules.
-/

namespace Lisplet

/-! ### The rules -/

/-- A digit. -/
def IsDigit (c : Char) : Prop := '0' ≤ c ∧ c ≤ '9'

/-- A letter or one of ten signs. -/
def IsSymbolStart (c : Char) : Prop :=
  ('a' ≤ c ∧ c ≤ 'z') ∨ ('A' ≤ c ∧ c ≤ 'Z') ∨
    c ∈ ['+', '-', '/', '*', '=', ':', '>', '<', '?', '!']

/-- A letter, a sign or a digit. -/
def IsSymbolPart (c : Char) : Prop := IsSymbolStart c ∨ IsDigit c

/-- A digit or a dot. -/
def IsNumberPart (c : Char) : Prop := IsDigit c ∨ c = '.'

/-- A number starts at a digit, or at a minus sign directly before a digit. -/
def StartsNumber (c : Char) (cs : List Char) : Prop :=
  IsDigit c ∨ c = '-' ∧ ∃ d ∈ cs.head?, IsDigit d

/-- The longest first part of `cs` with characters of one class only, and what follows it. -/
structure Longest (p : Char → Prop) (cs run rest : List Char) : Prop where
  append : cs = run ++ rest
  all : ∀ c ∈ run, p c
  stops : ∀ c ∈ rest.head?, ¬ p c

/-- The text of a string after its opening quote, each backslash replaced by the character after
it, and what follows the closing quote. -/
inductive StringText : List Char → List Char → List Char → Prop
  | close {rest : List Char} : StringText ('\x22' :: rest) [] rest
  | escaped {c : Char} {cs text rest : List Char} : StringText cs text rest →
      StringText ('\\' :: c :: cs) (c :: text) rest
  | plain {c : Char} {cs text rest : List Char} : c ≠ '\x22' → c ≠ '\\' →
      StringText cs text rest → StringText (c :: cs) (c :: text) rest

/-- The first lexeme of some characters: the token it makes, if any, and the characters after it.
A string that is not closed takes all characters and makes no token. -/
inductive FirstLexeme : List Char → Option Token → List Char → Prop
  | space {cs : List Char} : FirstLexeme (' ' :: cs) none cs
  | newline {cs : List Char} : FirstLexeme ('\n' :: cs) none cs
  | opening {cs : List Char} : FirstLexeme ('(' :: cs) (some ⟨.openParen, "("⟩) cs
  | closing {cs : List Char} : FirstLexeme (')' :: cs) (some ⟨.closeParen, ")"⟩) cs
  | string {cs text rest : List Char} : StringText cs text rest →
      FirstLexeme ('\x22' :: cs) (some ⟨.string, String.ofList text⟩) rest
  | unclosed {cs : List Char} : (∀ text rest, ¬ StringText cs text rest) →
      FirstLexeme ('\x22' :: cs) none []
  | number {c : Char} {cs run rest : List Char} : StartsNumber c cs →
      Longest IsNumberPart cs run rest →
      FirstLexeme (c :: cs) (some ⟨.number, String.ofList (c :: run)⟩) rest
  | quote {cs run rest : List Char} : Longest IsSymbolPart cs run rest →
      FirstLexeme ('\x27' :: cs) (some ⟨.quote, String.ofList run⟩) rest
  | symbol {c : Char} {cs run rest : List Char} : IsSymbolStart c → ¬ StartsNumber c cs →
      Longest IsSymbolPart cs run rest →
      FirstLexeme (c :: cs) (some ⟨.symbol, String.ofList (c :: run)⟩) rest

/-- The tokens of some characters, lexeme after lexeme, or the character with which no lexeme starts
and the characters after it. -/
inductive Tokenized : List Char → Except (Char × List Char) (List Token) → Prop
  | nil : Tokenized [] (.ok [])
  | cons {cs rest : List Char} {t : Option Token} {r : Except (Char × List Char) (List Token)} :
      FirstLexeme cs t rest → Tokenized rest r → Tokenized cs (r.map (t.toList ++ ·))
  | stuck {c : Char} {cs : List Char} : (∀ t rest, ¬ FirstLexeme (c :: cs) t rest) →
      Tokenized (c :: cs) (.error (c, cs))

/-! ### Classes of characters -/

theorem isDigit_iff {c : Char} : c.isDigit = true ↔ IsDigit c := by
  show (decide ('0' ≤ c) && decide (c ≤ '9')) = true ↔ _
  rw [Bool.and_eq_true, decide_eq_true_eq, decide_eq_true_eq, IsDigit]

theorem isAlpha_iff {c : Char} :
    c.isAlpha = true ↔ ('a' ≤ c ∧ c ≤ 'z') ∨ ('A' ≤ c ∧ c ≤ 'Z') := by
  show (decide ('A' ≤ c ∧ c ≤ 'Z') || decide ('a' ≤ c) && decide (c ≤ 'z')) = true ↔ _
  rw [Bool.or_eq_true, Bool.and_eq_true, decide_eq_true_eq, decide_eq_true_eq, decide_eq_true_eq,
    or_comm]

theorem isSymbolStart_iff {c : Char} : isSymbolStart c = true ↔ IsSymbolStart c := by
  simp only [isSymbolStart, IsSymbolStart, Bool.or_eq_true, decide_eq_true_eq, isAlpha_iff,
    List.mem_cons, List.not_mem_nil, or_false, or_assoc]

theorem isSymbolPart_iff {c : Char} : isSymbolPart c = true ↔ IsSymbolPart c := by
  rw [isSymbolPart, Bool.or_eq_true, isSymbolStart_iff, isDigit_iff, IsSymbolPart]

theorem isNumberPart_iff {c : Char} : isNumberPart c = true ↔ IsNumberPart c := by
  rw [isNumberPart, Bool.or_eq_true, isDigit_iff, decide_eq_true_eq, IsNumberPart]

theorem startsNumber_iff {c : Char} {cs : List Char} :
    startsNumber c cs.head? = true ↔ StartsNumber c cs := by
  rw [startsNumber, Bool.or_eq_true, Bool.and_eq_true, isDigit_iff, decide_eq_true_eq,
    Option.any_eq_true, StartsNumber]
  simp only [isDigit_iff, Option.mem_def]

/-! ### Runs and strings -/

theorem longest_iff {p : Char → Prop} {q : Char → Bool} (hq : ∀ c, q c = true ↔ p c)
    {cs run rest : List Char} :
    Longest p cs run rest ↔ run = cs.takeWhile q ∧ rest = cs.dropWhile q := by
  constructor
  · rintro ⟨rfl, hall, hstop⟩
    have hrun : ∀ c ∈ run, q c = true := fun c hc => (hq c).2 (hall c hc)
    rw [List.takeWhile_append_of_pos hrun, List.dropWhile_append_of_pos hrun]
    cases rest with
    | nil => simp
    | cons c rest =>
      have hc : ¬ q c = true := fun h => hstop c rfl ((hq c).1 h)
      simp [hc]
  · rintro ⟨rfl, rfl⟩
    refine ⟨List.takeWhile_append_dropWhile.symm, fun c hc => ?_, fun c hc hp => ?_⟩
    · exact (hq c).1 (List.all_eq_true.1 List.all_takeWhile c hc)
    · have hd := List.head?_dropWhile_not q cs
      rw [Option.mem_def.1 hc] at hd
      exact absurd ((hq c).2 hp) (by simpa using hd)

/-- The characters that go on a run. -/
def Scan.Run.Part : Scan.Run → Char → Prop
  | .number => IsNumberPart
  | .symbol => IsSymbolPart
  | .quote => IsSymbolPart

theorem Scan.Run.accepts_iff {kind : Scan.Run} {c : Char} :
    kind.accepts c = true ↔ kind.Part c := by
  cases kind with
  | number => exact isNumberPart_iff
  | symbol => exact isSymbolPart_iff
  | quote => exact isSymbolPart_iff

theorem runLexeme_eq_iff {kind : Scan.Run} {text cs rest : List Char} {t : Option Token} :
    some (runLexeme kind text cs) = some (t, rest) ↔
      ∃ run, Longest kind.Part cs run rest ∧
        t = some ⟨kind.kind, String.ofList (text ++ run)⟩ := by
  simp only [longest_iff fun _ => Scan.Run.accepts_iff, runLexeme, Option.some.injEq,
    Prod.mk.injEq]
  constructor
  · rintro ⟨rfl, rfl⟩
    exact ⟨_, ⟨rfl, rfl⟩, rfl⟩
  · rintro ⟨_, ⟨rfl, rfl⟩, rfl⟩
    exact ⟨rfl, rfl⟩

theorem stringText_iff {cs text rest : List Char} :
    StringText cs text rest ↔ stringBody cs = some (text, rest) := by
  constructor
  · intro h
    induction h with
    | close => rw [stringBody_quote]
    | escaped _ ih => rw [stringBody_backslash, ih, Option.map_some]
    | plain hq hb _ ih => rw [stringBody_of_ne hq hb, ih, Option.map_some]
  · intro h
    fun_induction stringBody cs generalizing text rest with
    | case1 => cases h
    | case2 =>
      cases h
      exact .close
    | case3 => cases h
    | case4 d cs hq ih =>
      obtain ⟨⟨text', rest'⟩, hr, he⟩ := Option.map_eq_some_iff.1 h
      cases he
      exact .escaped (ih hr)
    | case5 c cs hq hb ih =>
      obtain ⟨⟨text', rest'⟩, hr, he⟩ := Option.map_eq_some_iff.1 h
      cases he
      exact .plain hq hb (ih hr)

/-! ### The first lexeme and all of them -/

theorem lexeme_of_firstLexeme {c : Char} {cs rest : List Char} {t : Option Token}
    (h : FirstLexeme (c :: cs) t rest) : lexeme c cs = some (t, rest) := by
  cases h with
  | space => rfl
  | newline => rfl
  | opening => rfl
  | closing => rfl
  | string hs => exact lexeme_string (stringText_iff.1 hs)
  | unclosed hs =>
    have hnone : stringBody cs = none :=
      Option.eq_none_iff_forall_ne_some.2 fun b hb => hs b.1 b.2 (stringText_iff.2 hb)
    simp [lexeme, hnone]
  | number hn hl =>
    rw [lexeme_number (startsNumber_iff.2 hn)]
    exact runLexeme_eq_iff.2 ⟨_, hl, rfl⟩
  | quote hl =>
    rw [lexeme_quote]
    exact runLexeme_eq_iff.2 ⟨_, hl, rfl⟩
  | symbol hs hn hl =>
    have hn' : startsNumber c cs.head? = false :=
      Bool.eq_false_iff.2 fun h => hn (startsNumber_iff.1 h)
    rw [lexeme_symbol (isSymbolStart_iff.2 hs) hn']
    exact runLexeme_eq_iff.2 ⟨_, hl, rfl⟩

theorem firstLexeme_of_lexeme {c : Char} {cs rest : List Char} {t : Option Token}
    (h : lexeme c cs = some (t, rest)) : FirstLexeme (c :: cs) t rest := by
  unfold lexeme at h
  split_ifs at h with h₁ h₂ h₃ h₄ h₅ h₆ h₇
  · cases h
    rw [Bool.or_eq_true, decide_eq_true_eq, decide_eq_true_eq] at h₁
    rcases h₁ with rfl | rfl
    · exact .space
    · exact .newline
  · cases h
    exact h₂ ▸ .opening
  · cases h
    exact h₃ ▸ .closing
  · subst h₄
    split at h
    · rename_i text r hb
      cases h
      exact .string (stringText_iff.2 hb)
    · rename_i hb
      cases h
      refine .unclosed fun text rest hs => ?_
      rw [stringText_iff.1 hs] at hb
      cases hb
  · obtain ⟨run, hl, rfl⟩ := runLexeme_eq_iff.1 h
    exact .number (startsNumber_iff.1 h₅) hl
  · obtain ⟨run, hl, rfl⟩ := runLexeme_eq_iff.1 h
    exact h₆ ▸ .quote hl
  · obtain ⟨run, hl, rfl⟩ := runLexeme_eq_iff.1 h
    exact .symbol (isSymbolStart_iff.1 h₇) (fun hn => h₅ (startsNumber_iff.2 hn)) hl

/-- The first lexeme is the one that the rules allow. -/
theorem firstLexeme_iff {c : Char} {cs rest : List Char} {t : Option Token} :
    FirstLexeme (c :: cs) t rest ↔ lexeme c cs = some (t, rest) :=
  ⟨lexeme_of_firstLexeme, firstLexeme_of_lexeme⟩

theorem length_firstLexeme {cs rest : List Char} {t : Option Token} (h : FirstLexeme cs t rest) :
    rest.length < cs.length := by
  cases cs with
  | nil => cases h
  | cons c cs => exact Nat.lt_succ_of_le (length_lexeme (firstLexeme_iff.1 h))

/-- The place of the character at which the rules stop, in a source of `length` characters the
first of which stands at `offset`. -/
def located (offset length : Nat) :
    Except (Char × List Char) (List Token) → Except (Nat × Char) (List Token)
  | .ok ts => .ok ts
  | .error (c, rest) => .error (offset + (length - (rest.length + 1)), c)

theorem length_of_tokenized {cs : List Char} {r : Except (Char × List Char) (List Token)}
    (h : Tokenized cs r) {c : Char} {rest : List Char} (hr : r = .error (c, rest)) :
    rest.length + 1 ≤ cs.length := by
  induction h with
  | nil => cases hr
  | @cons cs rest' t r hl _ ih =>
    cases r with
    | ok ts => cases hr
    | error e =>
      cases hr
      exact Nat.le_trans (ih rfl) (Nat.le_of_lt (length_firstLexeme hl))
  | stuck =>
    cases hr
    exact Nat.le_refl _

theorem lexFrom_of_none {offset : Nat} {c : Char} {rest : List Char} (h : lexeme c rest = none) :
    lexFrom offset (c :: rest) = .error (offset, c) := by
  rw [lexFrom]
  split
  · rfl
  · rename_i h'
    rw [h] at h'
    cases h'

/-- The rules give no more than one result. -/
theorem lexFrom_of_tokenized {cs : List Char} {r : Except (Char × List Char) (List Token)}
    (h : Tokenized cs r) (offset : Nat) : lexFrom offset cs = located offset cs.length r := by
  induction h generalizing offset with
  | nil => exact lexFrom_nil offset
  | @cons cs rest t r hl hr ih =>
    cases cs with
    | nil => cases hl
    | cons c cs =>
      have hlt := length_firstLexeme hl
      rw [lexFrom_of_some (firstLexeme_iff.1 hl), ih]
      cases r with
      | ok ts => rfl
      | error e =>
        -- The place is counted from the end of the source, which the lexeme does not move.
        obtain ⟨d, rest'⟩ := e
        have hle := length_of_tokenized hr rfl
        rw [List.length_cons] at hlt
        simp only [located, Except.map, List.length_cons, Except.error.injEq, Prod.mk.injEq,
          and_true]
        omega
  | @stuck c cs hs =>
    have hnone : lexeme c cs = none :=
      Option.eq_none_iff_forall_ne_some.2 fun b hb => hs b.1 b.2 (firstLexeme_iff.2 hb)
    rw [lexFrom_of_none hnone]
    simp [located]

/-- The rules give every source a result. -/
theorem exists_tokenized (cs : List Char) : ∃ r, Tokenized cs r := by
  -- Each lexeme leaves fewer characters.
  induction hn : cs.length using Nat.strongRecOn generalizing cs with
  | ind n ih =>
    cases cs with
    | nil => exact ⟨_, .nil⟩
    | cons c cs =>
      cases hl : lexeme c cs with
      | none =>
        refine ⟨_, .stuck fun t rest h => ?_⟩
        rw [firstLexeme_iff.1 h] at hl
        cases hl
      | some l =>
        have hfirst : FirstLexeme (c :: cs) l.1 l.2 := firstLexeme_iff.2 hl
        obtain ⟨r, hr⟩ := ih l.2.length (hn ▸ length_firstLexeme hfirst) l.2 rfl
        exact ⟨_, .cons hfirst hr⟩

theorem Scan.tokens_eq_error {source : List Char} {s : Scan} {e : SyntaxError} :
    s.tokens source = .error e ↔
      ∃ offset c, s.result = .error (offset, c) ∧ e = .locate source offset c := by
  unfold Scan.tokens
  cases hr : s.result with
  | ok ts => simp
  | error p =>
    obtain ⟨offset, c⟩ := p
    constructor
    · rintro ⟨⟩
      exact ⟨offset, c, rfl, rfl⟩
    · rintro ⟨_, _, ⟨⟩, rfl⟩
      rfl

/-- A scan that the cap does not cut short follows the rules. It succeeds with the tokens that they
give, and it fails at the first character with which they let no lexeme start: the one before the
last `rest.length` characters. -/
theorem scan_iff_tokenized (cap : Nat) (source : List Char)
    (ht : (scan cap source).truncated = false) :
    (∀ ts, (scan cap source).tokens source = .ok ts ↔ Tokenized source (.ok ts)) ∧
      ∀ e, (scan cap source).tokens source = .error e ↔
        ∃ c rest, Tokenized source (.error (c, rest)) ∧
          e = .locate source (source.length - (rest.length + 1)) c := by
  have hall : ∀ {r}, Tokenized source r → (scan cap source).result = located 0 source.length r := by
    intro r hr
    unfold scan at ht ⊢
    rw [Scan.go_eq_lexFrom ht, lexFrom_of_tokenized hr]
    cases r <;> rfl
  obtain ⟨r, hr⟩ := exists_tokenized source
  refine ⟨fun ts => ?_, fun e => ?_⟩
  · rw [Scan.tokens_eq_ok]
    refine ⟨fun h => ?_, fun h => hall h⟩
    rw [hall hr] at h
    cases r with
    | ok us =>
      cases h
      exact hr
    | error e => cases h
  · rw [Scan.tokens_eq_error]
    constructor
    · rintro ⟨offset, c, h, rfl⟩
      rw [hall hr] at h
      cases r with
      | ok us => cases h
      | error e =>
        cases h
        exact ⟨_, _, hr, by rw [Nat.zero_add]⟩
    · rintro ⟨c, rest, h, rfl⟩
      exact ⟨_, _, hall h, by rw [Nat.zero_add]⟩

/-- Tokens without a blank between them, and a dot after a symbol. -/
theorem scan_iff_tokenized_adjacent :
    Tokenized "1-5.3\x27\x27a12\"x\\\"\"-\"(".toList
        (.ok [⟨.number, "1"⟩, ⟨.number, "-5.3"⟩, ⟨.quote, ""⟩, ⟨.quote, "a12"⟩, ⟨.string, "x\""⟩,
          ⟨.symbol, "-"⟩]) ∧
      ∃ c rest, Tokenized "a-5.3".toList (.error (c, rest)) ∧
        SyntaxError.locate "a-5.3".toList 3 '.' =
          .locate "a-5.3".toList ("a-5.3".toList.length - (rest.length + 1)) c :=
  ⟨((scan_iff_tokenized 40 _ (by decide)).1 _).1 rfl,
    ((scan_iff_tokenized 40 _ (by decide)).2 _).1 rfl⟩

end Lisplet
