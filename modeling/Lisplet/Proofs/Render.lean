import Lisplet.Proofs.Lexer

/-!
# Printing and reading trees

A forest can be written down so that reading gives it back, provided that its atoms are such as
the scanner makes; and the scanner makes no others, whatever the source and the cap.

* `Token.isLexeme`: the tokens that can stand as an atom;
* `Node.allTokens`: a tree without holes all of whose atoms are of one sort;
* `Token.render`, `Node.render`, `Node.renderAll`: the characters of tokens, trees and forests;
* `lexes_render`: scanning the characters of a tree gives its tokens;
* `Node.forestOf_flattenAll`: reading the tokens of a forest gives the forest;
* `isScanned_of_tokenize`: every token of a source is a lexeme or a parenthesis;
* `Node.print_ofSource_inverse`: printing and reading are inverse.
-/

namespace Lisplet

/-! ### Lexemes -/

/-- A digit, then digits and dots. -/
def isUnsignedText : List Char → Bool
  | [] => false
  | c :: cs => c.isDigit && cs.all isNumberPart

/-- Digits and dots that start with a digit, with or without a minus sign before. -/
def isNumberText : List Char → Bool
  | '-' :: cs => isUnsignedText cs
  | cs => isUnsignedText cs

/-- A character that starts a symbol, then characters that go on one, but not a minus sign before
a digit. -/
def isSymbolText : List Char → Bool
  | [] => false
  | c :: cs => isSymbolStart c && cs.all isSymbolPart && !(c = '-' && cs.head?.any Char.isDigit)

namespace Token

/-- Whether a token can stand as an atom: any string, a number or symbol that is spelt as such,
and any run of characters of symbols as a quote. -/
def isLexeme (t : Token) : Bool :=
  match t.kind with
  | .string => true
  | .number => isNumberText t.text.toList
  | .symbol => isSymbolText t.text.toList
  | .quote => t.text.toList.all isSymbolPart
  | _ => false

/-- A backslash before every quote and every backslash. -/
def escape (text : List Char) : List Char :=
  text.flatMap fun c => if c = '\x22' || c = '\\' then ['\\', c] else [c]

/-- The characters of a token. -/
def render (t : Token) : List Char :=
  match t.kind with
  | .string => '\x22' :: (escape t.text.toList ++ ['\x22'])
  | .quote => '\x27' :: t.text.toList
  | _ => t.text.toList

end Token

namespace Node

mutual

/-- Whether a tree has no holes and all of its atoms are of one sort. -/
def allTokens (p : Token → Bool) : Node → Bool
  | .hole _ => false
  | .atom t => p t
  | .branch cs => allTokensOf p cs

/-- Whether the trees of a list have no holes and all of their atoms are of one sort. -/
def allTokensOf (p : Token → Bool) : List Node → Bool
  | [] => true
  | n :: rest => allTokens p n && allTokensOf p rest

end

mutual

/-- The characters of a tree, with parentheses around each branch and nothing for a hole. -/
def render : Node → List Char
  | .hole _ => []
  | .atom t => t.render
  | .branch cs => '(' :: (renderAll cs ++ [')'])

/-- The characters of a list of trees, with one space between two of them. -/
def renderAll : List Node → List Char
  | [] => []
  | n :: rest => render n ++ if rest.isEmpty then [] else ' ' :: renderAll rest

end

end Node

/-! ### Characters -/

theorem isDigit_of_isSymbolStart {c : Char} (h : isSymbolStart c = true) : c.isDigit = false := by
  simp only [isSymbolStart, Bool.or_eq_true, decide_eq_true_eq] at h
  rcases h with (((((((((h | rfl) | rfl) | rfl) | rfl) | rfl) | rfl) | rfl) | rfl) | rfl) | rfl
  · have h : c.isUpper = true ∨ c.isLower = true := Bool.or_eq_true_iff.1 h
    -- All letters come after the digits.
    have hletter : 'A'.toNat ≤ c.toNat := by
      rcases h with h | h
      · have h : 'A'.val ≤ c.val ∧ c.val ≤ 'Z'.val := of_decide_eq_true h
        exact UInt32.le_iff_toNat_le.1 h.1
      · have h : 'a'.val ≤ c.val := of_decide_eq_true (Bool.and_eq_true_iff.1 h).1
        have hupper : 'A'.toNat ≤ 'a'.toNat := by decide
        exact Nat.le_trans hupper (UInt32.le_iff_toNat_le.1 h)
    rw [Bool.eq_false_iff]
    intro hd
    exact absurd (Nat.le_trans hletter (Char.isDigit_iff_toNat.1 hd).2) (by decide)
  all_goals rfl

/-- Where a token stops: at the end, or before a space or a closing parenthesis. -/
def Stops (rest : List Char) : Prop := ∀ c ∈ rest.head?, c = ' ' ∨ c = ')'

theorem stops_nil : Stops [] := by
  intro c hc
  cases hc

theorem stops_space (cs : List Char) : Stops (' ' :: cs) := by
  rintro c ⟨⟩
  exact .inl rfl

theorem stops_closing (cs : List Char) : Stops (')' :: cs) := by
  rintro c ⟨⟩
  exact .inr rfl

theorem Stops.accepts {rest : List Char} (h : Stops rest) (kind : Scan.Run) :
    ∀ c ∈ rest.head?, kind.accepts c = false := by
  intro c hc
  rcases h c hc with rfl | rfl <;> cases kind <;> decide

/-- A run takes its own characters and leaves what it stops before. -/
theorem runLexeme_append {kind : Scan.Run} {text cs rest : List Char}
    (hcs : cs.all kind.accepts = true) (h : Stops rest) :
    runLexeme kind text (cs ++ rest) = (some ⟨kind.kind, String.ofList (text ++ cs)⟩, rest) := by
  have hall : ∀ c ∈ cs, kind.accepts c = true := List.all_eq_true.1 hcs
  have hrest : rest.takeWhile kind.accepts = [] ∧ rest.dropWhile kind.accepts = rest := by
    cases rest with
    | nil => exact ⟨rfl, rfl⟩
    | cons c rest =>
      have hc := h.accepts kind c rfl
      simp [hc]
  unfold runLexeme
  rw [List.takeWhile_append_of_pos hall, List.dropWhile_append_of_pos hall, hrest.1, hrest.2,
    List.append_nil]

theorem stringBody_escape (text rest : List Char) :
    stringBody (Token.escape text ++ '\x22' :: rest) = some (text, rest) := by
  induction text with
  | nil => exact stringBody_quote rest
  | cons c text ih =>
    have hcons : Token.escape (c :: text) =
        (if c = '\x22' || c = '\\' then ['\\', c] else [c]) ++ Token.escape text := rfl
    rw [hcons]
    by_cases hc : c = '\x22' ∨ c = '\\'
    · simp [hc, ih]
    · obtain ⟨hq, hb⟩ := not_or.1 hc
      simp [hq, hb, stringBody_of_ne, ih]

/-! ### Lexemes of each class -/

theorem lexeme_string {cs text rest : List Char} (h : stringBody cs = some (text, rest)) :
    lexeme '\x22' cs = some (some ⟨.string, String.ofList text⟩, rest) := by
  simp [lexeme, h]

theorem lexeme_quote (cs : List Char) : lexeme '\x27' cs = some (runLexeme .quote [] cs) := by
  have h : startsNumber '\x27' cs.head? = false := by simp [startsNumber, Char.isDigit]
  simp [lexeme, h]

theorem lexeme_number {c : Char} {cs : List Char} (h : startsNumber c cs.head? = true) :
    lexeme c cs = some (runLexeme .number [c] cs) := by
  have hc : c.isDigit = true ∨ c = '-' := by
    simp only [startsNumber, Bool.or_eq_true, Bool.and_eq_true, decide_eq_true_eq] at h
    exact h.imp_right And.left
  have hne : ∀ d : Char, d.isDigit = false → d ≠ '-' → ¬ c = d := by
    rintro d hd hm rfl
    rcases hc with hc | hc
    · exact absurd hc (Bool.eq_false_iff.1 hd)
    · exact hm hc
  simp [lexeme, h, hne ' ' (by decide) (by decide), hne '\n' (by decide) (by decide),
    hne '(' (by decide) (by decide), hne ')' (by decide) (by decide),
    hne '\x22' (by decide) (by decide)]

theorem lexeme_symbol {c : Char} {cs : List Char} (h : isSymbolStart c = true)
    (hn : startsNumber c cs.head? = false) : lexeme c cs = some (runLexeme .symbol [c] cs) := by
  have hne : ∀ d : Char, isSymbolStart d = false → ¬ c = d := by
    rintro d hd rfl
    exact absurd h (Bool.eq_false_iff.1 hd)
  simp [lexeme, h, hn, hne ' ' (by decide), hne '\n' (by decide), hne '(' (by decide),
    hne ')' (by decide), hne '\x22' (by decide), hne '\x27' (by decide)]

/-! ### Texts of numbers and symbols -/

/-- What a token stops before is no digit, so it does not turn a minus sign into a number. -/
theorem startsNumber_append {rest : List Char} (h : Stops rest) (c : Char) (cs : List Char) :
    startsNumber c (cs ++ rest).head? = startsNumber c cs.head? := by
  cases cs with
  | cons d cs => rfl
  | nil =>
    cases rest with
    | nil => rfl
    | cons d rest =>
      have hd : d.isDigit = false := by rcases h d rfl with rfl | rfl <;> rfl
      simp [startsNumber, hd]

theorem startsNumber_takeWhile {p : Char → Bool} (hp : ∀ d : Char, d.isDigit = true → p d = true)
    (c : Char) (cs : List Char) :
    startsNumber c (cs.takeWhile p).head? = startsNumber c cs.head? := by
  cases cs with
  | nil => rfl
  | cons d cs =>
    by_cases hd : p d = true
    · simp [hd]
    · have hd' : d.isDigit = false := Bool.eq_false_iff.2 fun h => hd (hp d h)
      simp [hd, startsNumber, hd']

theorem isNumberText_cons (c : Char) (cs : List Char) :
    isNumberText (c :: cs) = (startsNumber c cs.head? && cs.all isNumberPart) := by
  by_cases hc : c = '-'
  · subst hc
    have hm : Char.isDigit '-' = false := rfl
    cases cs with
    | nil => rfl
    | cons d cs =>
      by_cases hd : d.isDigit = true
      · simp [isNumberText, isUnsignedText, startsNumber, isNumberPart, hd]
      · simp [isNumberText, isUnsignedText, startsNumber, hm, hd]
  · have hu : isNumberText (c :: cs) = isUnsignedText (c :: cs) := by
      unfold isNumberText
      split
      · rename_i h
        exact absurd (List.cons.inj h).1 hc
      · rfl
    simp [hu, isUnsignedText, startsNumber, hc]

theorem isSymbolText_cons (c : Char) (cs : List Char) :
    isSymbolText (c :: cs) =
      (isSymbolStart c && cs.all isSymbolPart && !startsNumber c cs.head?) := by
  by_cases hc : isSymbolStart c = true
  · simp [isSymbolText, startsNumber, isDigit_of_isSymbolStart hc]
  · simp [isSymbolText, hc]

/-- The first lexeme of the characters of a token is the token. -/
theorem lexeme_render {t : Token} (ht : t.isLexeme = true) {rest : List Char} (h : Stops rest) :
    ∃ c cs, t.render ++ rest = c :: cs ∧ lexeme c cs = some (some t, rest) := by
  obtain ⟨kind, text⟩ := t
  cases kind with
  | string =>
    refine ⟨'\x22', Token.escape text.toList ++ '\x22' :: rest, by simp [Token.render], ?_⟩
    rw [lexeme_string (stringBody_escape text.toList rest), String.ofList_toList]
  | quote =>
    refine ⟨'\x27', text.toList ++ rest, rfl, ?_⟩
    have hall : text.toList.all (Scan.Run.accepts .quote) = true := ht
    rw [lexeme_quote, runLexeme_append hall h, List.nil_append, String.ofList_toList]
    rfl
  | number =>
    have ht : isNumberText text.toList = true := ht
    cases htext : text.toList with
    | nil =>
      rw [htext] at ht
      cases ht
    | cons c cs =>
      rw [htext, isNumberText_cons, Bool.and_eq_true] at ht
      obtain ⟨hstart, hall⟩ := ht
      refine ⟨c, cs ++ rest, by simp [Token.render, htext], ?_⟩
      rw [← startsNumber_append h] at hstart
      have hall : cs.all (Scan.Run.accepts .number) = true := hall
      rw [lexeme_number hstart, runLexeme_append hall h, List.singleton_append, ← htext,
        String.ofList_toList]
      rfl
  | symbol =>
    have ht : isSymbolText text.toList = true := ht
    cases htext : text.toList with
    | nil =>
      rw [htext] at ht
      cases ht
    | cons c cs =>
      rw [htext, isSymbolText_cons, Bool.and_eq_true, Bool.and_eq_true, Bool.not_eq_true'] at ht
      obtain ⟨⟨hstart, hall⟩, hn⟩ := ht
      refine ⟨c, cs ++ rest, by simp [Token.render, htext], ?_⟩
      rw [← startsNumber_append h] at hn
      have hall : cs.all (Scan.Run.accepts .symbol) = true := hall
      rw [lexeme_symbol hstart hn, runLexeme_append hall h, List.singleton_append, ← htext,
        String.ofList_toList]
      rfl
  | openParen => cases ht
  | closeParen => cases ht
  | other code => cases ht

/-! ### Scanning what was printed -/

/-- The characters have these tokens, wherever they stand. -/
def Lexes (cs : List Char) (ts : List Token) : Prop := ∀ offset, lexFrom offset cs = .ok ts

theorem Lexes.cons {c : Char} {cs rest : List Char} {t : Option Token} {ts : List Token}
    (h : Lexes rest ts) (hl : lexeme c cs = some (t, rest)) : Lexes (c :: cs) (t.toList ++ ts) := by
  intro offset
  rw [lexFrom_of_some hl, h]
  rfl

mutual

/-- The characters of a tree have the tokens of the tree. -/
theorem lexes_render {rest : List Char} {ts : List Token} (hs : Stops rest) (h : Lexes rest ts) :
    ∀ n : Node, n.allTokens Token.isLexeme = true → Lexes (n.render ++ rest) (n.flatten ++ ts)
  | .hole _, hn => nomatch hn
  | .atom t, hn => by
    obtain ⟨c, cs, hcs, hl⟩ := lexeme_render hn hs
    rw [Node.render, hcs]
    exact h.cons hl
  | .branch ns, hn => by
    have hclose : Lexes (')' :: rest) (Token.closing :: ts) :=
      h.cons (t := some .closing) rfl
    have hall := lexes_renderAll (stops_closing rest) hclose ns hn
    have hopen := hall.cons (c := '(') rfl
    simpa [Node.render, Node.flatten] using hopen

/-- The characters of a forest have the tokens of the forest. -/
theorem lexes_renderAll {rest : List Char} {ts : List Token} (hs : Stops rest)
    (h : Lexes rest ts) : ∀ ns : List Node, Node.allTokensOf Token.isLexeme ns = true →
      Lexes (Node.renderAll ns ++ rest) (Node.flattenAll ns ++ ts)
  | [], _ => h
  | [n], hn => by
    have hn := (Bool.and_eq_true_iff.1 hn).1
    simpa [Node.renderAll, Node.flattenAll] using lexes_render hs h n hn
  | n :: k :: ns, hn => by
    obtain ⟨hn, hk⟩ := Bool.and_eq_true_iff.1 hn
    have hrest := lexes_renderAll hs h (k :: ns) hk
    have hspace := hrest.cons (c := ' ') rfl
    have hall := lexes_render (stops_space _) hspace n hn
    simpa [Node.renderAll, Node.flattenAll] using hall

end

/-! ### Reading the tokens of a forest -/

/-- Whether a token is no parenthesis. -/
def Token.isPlain (t : Token) : Bool := t.kind ≠ .openParen && t.kind ≠ .closeParen

theorem Token.isPlain_of_isLexeme {t : Token} (h : t.isLexeme = true) : t.isPlain = true := by
  obtain ⟨kind, text⟩ := t
  cases kind with
  | openParen => cases h
  | closeParen => cases h
  | _ => rfl

namespace Reading

theorem step_of_isPlain {t : Token} (h : t.isPlain = true) (r : Reading) :
    r.step t = r.add (.atom t) := by
  obtain ⟨kind, text⟩ := t
  cases kind with
  | openParen => cases h
  | closeParen => cases h
  | _ => rfl

theorem run_append (r : Reading) (ts us : List Token) : r.run (ts ++ us) = (r.run ts).run us :=
  List.foldl_append

mutual

/-- The tokens of a tree add the tree. -/
theorem run_flatten (r : Reading) :
    ∀ n : Node, n.allTokens Token.isPlain = true → r.run n.flatten = r.add n
  | .hole _, hn => nomatch hn
  | .atom t, hn => step_of_isPlain hn r
  | .branch ns, hn => by
    have hopen : r.run (Node.flatten (.branch ns)) =
        (run ⟨[], r.inner :: r.outer⟩ (Node.flattenAll ns)).run [Token.closing] := by
      rw [Node.flatten, ← run_append]
      rfl
    rw [hopen, run_flattenAll _ ns hn]
    simp [run, step, Token.closing, add]

/-- The tokens of a forest add the forest. -/
theorem run_flattenAll (r : Reading) : ∀ ns : List Node,
    Node.allTokensOf Token.isPlain ns = true →
      r.run (Node.flattenAll ns) = ⟨ns.reverse ++ r.inner, r.outer⟩
  | [], _ => rfl
  | n :: ns, hn => by
    obtain ⟨hn, hns⟩ := Bool.and_eq_true_iff.1 hn
    rw [Node.flattenAll, run_append, run_flatten r n hn, run_flattenAll _ ns hns]
    simp [add]

end

end Reading

/-- Reading the tokens of a forest gives the forest. -/
theorem Node.forestOf_flattenAll {ns : List Node} (h : allTokensOf Token.isPlain ns = true) :
    forestOf (flattenAll ns) = ns := by
  rw [forestOf, Reading.run_flattenAll _ ns h]
  simp [Reading.forest, Reading.close]

/-! ### What a scan can find -/

/-- Whether the scanner can make a token: a lexeme or a parenthesis. -/
def Token.isScanned (t : Token) : Bool := t.isLexeme || !t.isPlain

namespace Scan

/-- The token that a run will become. -/
def Run.token (kind : Run) (text cs : List Char) : Token :=
  ⟨kind.kind, String.ofList (text.reverse ++ cs.takeWhile kind.accepts)⟩

/-- Every finished token can be made, and so can the token of a run that is being read, given the
characters that are left. -/
structure State.Sound (s : State) (cs : List Char) : Prop where
  tokens : ∀ t ∈ s.tokens, t.isScanned = true
  mode : ∀ kind text, s.mode = .run kind text → (kind.token text cs).isLexeme = true

/-- A step after which every finished token can be made. -/
def Step.Sound (cs : List Char) : Step → Prop
  | .next s => s.Sound cs
  | .cut s => ∀ t ∈ s.tokens, t.isScanned = true
  | .reject _ => True

theorem isLexeme_number {c : Char} {cs : List Char} (h : startsNumber c cs.head? = true) :
    (Run.number.token [c] cs).isLexeme = true := by
  have hdigit : ∀ d : Char, d.isDigit = true → isNumberPart d = true := by
    intro d hd
    simp [isNumberPart, hd]
  have htext : isNumberText (c :: cs.takeWhile isNumberPart) = true := by
    rw [isNumberText_cons, startsNumber_takeWhile hdigit, h, Bool.true_and]
    exact List.all_takeWhile
  simpa [Run.token, Token.isLexeme, Run.kind, Run.accepts] using htext

theorem isLexeme_symbol {c : Char} {cs : List Char} (h : isSymbolStart c = true)
    (hn : startsNumber c cs.head? = false) : (Run.symbol.token [c] cs).isLexeme = true := by
  have hdigit : ∀ d : Char, d.isDigit = true → isSymbolPart d = true := by
    intro d hd
    simp [isSymbolPart, hd]
  have htext : isSymbolText (c :: cs.takeWhile isSymbolPart) = true := by
    rw [isSymbolText_cons, startsNumber_takeWhile hdigit, h, hn,
      List.all_takeWhile]
    rfl
  simpa [Run.token, Token.isLexeme, Run.kind, Run.accepts] using htext

theorem isLexeme_quote (cs : List Char) : (Run.quote.token [] cs).isLexeme = true := by
  simp [Run.token, Token.isLexeme, Run.kind, Run.accepts]

theorem State.Sound.of_mode {s : State} {cs : List Char}
    (hs : ∀ t ∈ s.tokens, t.isScanned = true) (hm : ∀ kind text, s.mode ≠ .run kind text) :
    s.Sound cs :=
  ⟨hs, fun kind text h => absurd h (hm kind text)⟩

theorem start_sound {s : State} (hs : ∀ t ∈ s.tokens, t.isScanned = true)
    (hm : s.mode = .between) (cap : Nat) (c : Char) (cs : List Char) :
    (start cap s c cs.head?).Sound cs := by
  -- A parenthesis is the only token that is made of one character.
  have hparen : ∀ kind, (⟨kind, String.ofList [c]⟩ : Token).isPlain = false →
      (s.count.emit kind [c]).Sound cs := by
    intro kind hk
    refine .of_mode ?_ fun _ _ => Mode.noConfusion
    intro t ht
    rcases List.mem_cons.1 ht with rfl | ht
    · rw [List.reverse_singleton, Token.isScanned, hk]
      exact Bool.or_true _
    · exact hs t ht
  have hrun : ∀ kind text, (Run.token kind text cs).isLexeme = true →
      (s.count.become (.run kind text)).Sound cs := by
    rintro kind text hl
    exact ⟨hs, by rintro _ _ ⟨⟩; exact hl⟩
  simp only [start]
  split_ifs with h₁ h₂ h₃ h₄ h₅ h₆ h₇ h₈
  · exact hs
  · refine .of_mode hs fun kind text h => ?_
    have h : s.mode = .run kind text := h
    rw [hm] at h
    cases h
  · exact hparen _ rfl
  · exact hparen _ rfl
  · exact .of_mode hs fun _ _ => Mode.noConfusion
  · exact hrun _ _ (isLexeme_number h₆)
  · exact hrun _ _ (isLexeme_quote cs)
  · exact hrun _ _ (isLexeme_symbol h₈ (Bool.eq_false_iff.2 h₆))
  · trivial

/-- Taking a character keeps it so that every token can be made. -/
theorem step_sound {s : State} {c : Char} {cs : List Char} (h : s.Sound (c :: cs)) (cap : Nat) :
    (step cap s c cs.head?).Sound cs := by
  obtain ⟨mode, reads, tokens⟩ := s
  cases mode with
  | between => exact start_sound h.tokens rfl cap c cs
  | run kind text =>
    have hl := h.mode kind text rfl
    simp only [step]
    split_ifs with hc hk
    · exact h.tokens
    · -- The run is the same, with one more character read.
      refine ⟨h.tokens, ?_⟩
      rintro _ _ ⟨⟩
      simpa [Run.token, hk] using hl
    · refine start_sound (fun t ht => ?_) rfl cap c cs
      rcases List.mem_cons.1 ht with rfl | ht
      · have htok : Run.token kind text (c :: cs) = ⟨kind.kind, String.ofList text.reverse⟩ := by
          simp [Run.token, hk]
        rw [Token.isScanned, ← htok, hl, Bool.true_or]
      · exact h.tokens t ht
  | string text escaped =>
    simp only [step]
    split_ifs with hc he hb hq
    · exact h.tokens
    · exact .of_mode h.tokens fun _ _ => Mode.noConfusion
    · exact .of_mode h.tokens fun _ _ => Mode.noConfusion
    · refine .of_mode (fun t ht => ?_) fun _ _ => Mode.noConfusion
      rcases List.mem_cons.1 ht with rfl | ht
      · rfl
      · exact h.tokens t ht
    · exact .of_mode h.tokens fun _ _ => Mode.noConfusion

/-- Whatever the cap, a scan finds only tokens that can be made. -/
theorem go_sound {cap offset : Nat} {s : State} {cs : List Char} {ts : List Token}
    (h : s.Sound cs) (hts : (go cap s offset cs).result = .ok ts) :
    ∀ t ∈ ts, t.isScanned = true := by
  induction cs generalizing s offset with
  | nil =>
    cases hts
    intro t ht
    have ht := List.mem_reverse.1 ht
    obtain ⟨mode, reads, tokens⟩ := s
    cases mode with
    | between => exact h.tokens t ht
    | string text escaped => exact h.tokens t ht
    | run kind text =>
      rcases List.mem_cons.1 ht with rfl | ht
      · have hl := h.mode kind text rfl
        rw [Run.token, List.takeWhile_nil, List.append_nil] at hl
        rw [Token.isScanned, hl, Bool.true_or]
      · exact h.tokens t ht
  | cons c cs ih =>
    have hstep := step_sound h cap
    rw [go] at hts
    cases hs : step cap s c cs.head? with
    | next s' =>
      rw [hs] at hts hstep
      exact ih hstep hts
    | cut s' =>
      rw [hs] at hts hstep
      cases hts
      intro t ht
      exact hstep t (List.mem_reverse.1 ht)
    | reject s' =>
      rw [hs] at hts
      cases hts

end Scan

/-- Whatever the limit, a source has only tokens that the scanner can make. -/
theorem isScanned_of_tokenize {limit : Int} {source : String} {ts : List Token}
    (h : tokenize limit source = .ok ts) : ∀ t ∈ ts, t.isScanned = true := by
  have hempty : (({} : Scan.State)).Sound source.toList :=
    .of_mode (fun _ ht => nomatch ht) fun _ _ => Scan.Mode.noConfusion
  exact Scan.go_sound hempty (Scan.tokens_eq_ok.1 h)

/-! ### What reading can find -/

theorem Node.allTokensOf_iff {p : Token → Bool} {ns : List Node} :
    allTokensOf p ns = true ↔ ∀ n ∈ ns, n.allTokens p = true := by
  induction ns with
  | nil => simp [allTokensOf]
  | cons n ns ih => simp [allTokensOf, ih]

theorem Node.allTokensOf_reverse {p : Token → Bool} {ns : List Node} :
    allTokensOf p ns.reverse = true ↔ allTokensOf p ns = true := by
  simp only [allTokensOf_iff, List.mem_reverse]

namespace Reading

/-- All nodes of the open branches have only atoms of one sort. -/
structure Sound (p : Token → Bool) (r : Reading) : Prop where
  inner : Node.allTokensOf p r.inner = true
  outer : ∀ ns ∈ r.outer, Node.allTokensOf p ns = true

theorem step_sound {p : Token → Bool} {r : Reading} {t : Token} (hr : r.Sound p)
    (ht : t.isPlain = true → p t = true) : (r.step t).Sound p := by
  by_cases hp : t.isPlain = true
  · rw [step_of_isPlain hp]
    exact ⟨Bool.and_eq_true_iff.2 ⟨ht hp, hr.inner⟩, hr.outer⟩
  · obtain ⟨inner, outer⟩ := r
    obtain ⟨kind, text⟩ := t
    cases kind with
    | openParen => exact ⟨rfl, List.forall_mem_cons.2 ⟨hr.inner, hr.outer⟩⟩
    | closeParen =>
      cases outer with
      | nil => exact hr
      | cons parent outer =>
        obtain ⟨hparent, houter⟩ := List.forall_mem_cons.1 hr.outer
        have hbranch := Node.allTokensOf_reverse.2 hr.inner
        exact ⟨Bool.and_eq_true_iff.2 ⟨hbranch, hparent⟩, houter⟩
    | _ => exact absurd rfl hp

theorem run_sound {p : Token → Bool} {r : Reading} {ts : List Token} (hr : r.Sound p)
    (hts : ∀ t ∈ ts, t.isPlain = true → p t = true) : (r.run ts).Sound p := by
  induction ts generalizing r with
  | nil => exact hr
  | cons t ts ih =>
    obtain ⟨ht, hts⟩ := List.forall_mem_cons.1 hts
    exact ih (step_sound hr ht) hts

theorem allTokensOf_forest {p : Token → Bool} {r : Reading} (hr : r.Sound p) :
    Node.allTokensOf p r.forest = true := by
  obtain ⟨inner, outer⟩ := r
  induction outer generalizing inner with
  | nil => exact Node.allTokensOf_reverse.2 hr.inner
  | cons parent outer ih =>
    obtain ⟨hparent, houter⟩ := List.forall_mem_cons.1 hr.outer
    have hbranch := Node.allTokensOf_reverse.2 hr.inner
    exact ih (.branch inner.reverse :: parent)
      ⟨Bool.and_eq_true_iff.2 ⟨hbranch, hparent⟩, houter⟩

end Reading

namespace Node

/-- The atoms of a forest are the tokens it was read from, but for parentheses. -/
theorem allTokensOf_forestOf {p : Token → Bool} {ts : List Token}
    (h : ∀ t ∈ ts, t.isPlain = true → p t = true) : allTokensOf p (forestOf ts) = true :=
  Reading.allTokensOf_forest (Reading.run_sound ⟨rfl, fun _ hn => nomatch hn⟩ h)

mutual

theorem allTokens_imp {p q : Token → Bool} (hpq : ∀ t, p t = true → q t = true) :
    ∀ n : Node, n.allTokens p = true → n.allTokens q = true
  | .hole _, h => nomatch h
  | .atom t, h => hpq t h
  | .branch ns, h => allTokensOf_imp hpq ns h

theorem allTokensOf_imp {p q : Token → Bool} (hpq : ∀ t, p t = true → q t = true) :
    ∀ ns : List Node, allTokensOf p ns = true → allTokensOf q ns = true
  | [], _ => rfl
  | n :: ns, h => by
    obtain ⟨hn, hns⟩ := Bool.and_eq_true_iff.1 h
    exact Bool.and_eq_true_iff.2 ⟨allTokens_imp hpq n hn, allTokensOf_imp hpq ns hns⟩

end

/-! ### Printing and reading -/

/-- A forest as a source. -/
def print (forest : List Node) : String := String.ofList (renderAll forest)

theorem ofSource_print {forest : List Node} {limit : Int}
    (hf : allTokensOf Token.isLexeme forest = true)
    (hcap : capTrips (.both limit) (print forest) = false) :
    ofSource limit (print forest) = .ok (program forest) := by
  obtain ⟨ht, hcut⟩ := Bool.or_eq_false_iff.1 hcap
  have hlex : lexFrom 0 (print forest).toList = .ok (flattenAll forest) := by
    have hl : Lexes (renderAll forest ++ []) (flattenAll forest ++ []) :=
      lexes_renderAll stops_nil lexFrom_nil forest hf
    simpa [print] using hl 0
  have htokens : tokenize limit (print forest) = .ok (flattenAll forest) :=
    (tokenize_eq_ok ht).2 hlex
  have hcut : isCut (effectiveCap limit) (flattenAll forest) = false := by
    simpa [Limits.both, htokens] using hcut
  have hlen := Nat.not_lt.1 (of_decide_eq_false hcut)
  have hplain := allTokensOf_imp (fun _ => Token.isPlain_of_isLexeme) forest hf
  rw [ofSource, htokens, Except.map, ofTokens, List.take_of_length_le hlen,
    forestOf_flattenAll hplain]

/-- Whatever the limit, all atoms that are read from a source are lexemes. -/
theorem isLexeme_forestOf {limit : Int} {source : String} {ts : List Token}
    (h : tokenize limit source = .ok ts) (cap : Nat) :
    allTokensOf Token.isLexeme (forestOf (ts.take cap)) = true := by
  apply allTokensOf_forestOf
  intro t ht hp
  have hscan := isScanned_of_tokenize h t (List.mem_of_mem_take ht)
  rwa [Token.isScanned, hp, Bool.not_true, Bool.or_false] at hscan

/-- **Printing and reading are inverse.** Reading what was printed gives back any forest of
lexemes. Whatever source is read and whatever the limit, the tree has no other atoms, so that
printing and reading it again gives the same tree. The limits need only be large enough for what
was printed. -/
theorem print_ofSource_inverse :
    (∀ (forest : List Node) (limit : Int), allTokensOf Token.isLexeme forest = true →
      capTrips (.both limit) (print forest) = false →
      ofSource limit (print forest) = .ok (program forest)) ∧
    (∀ (limit : Int) (source : String) (ts : List Token), tokenize limit source = .ok ts →
      ∃ forest, ofSource limit source = .ok (program forest) ∧
        (program forest).allTokens Token.isLexeme = true ∧
        ∀ limit', capTrips (.both limit') (print forest) = false →
          ofSource limit' (print forest) = ofSource limit source) ∧
    ∀ (limit : Int) (source : String), 2 * source.length ≤ effectiveCap limit →
      capTrips (.both limit) source = false := by
  refine ⟨fun forest limit hf hcap => ofSource_print hf hcap, ?_, ?_⟩
  · intro limit source ts h
    have hall := isLexeme_forestOf h (effectiveCap limit)
    have hroot : (program (forestOf (ts.take (effectiveCap limit)))).allTokens Token.isLexeme =
        true := Bool.and_eq_true_iff.2 ⟨rfl, hall⟩
    have hsource : ofSource limit source = .ok (ofTokens (effectiveCap limit) ts) := by
      rw [ofSource, h, Except.map]
    refine ⟨forestOf (ts.take (effectiveCap limit)), hsource, hroot, fun limit' hcap => ?_⟩
    rw [ofSource_print hall hcap, hsource, ofTokens]
  · intro limit source hle
    exact capTrips_of_le hle (Nat.le_trans (Nat.le_mul_of_pos_left _ Nat.two_pos) hle)

/-- A call with a quote and a backslash in a string, a minus sign, a negative number and an empty
quote, and an empty branch after it. -/
def escapedCall : List Node :=
  [.branch [sym "f", .atom ⟨.string, "a\"\\"⟩, sym "-", .atom ⟨.number, "-1.5"⟩,
      .atom ⟨.quote, ""⟩],
    .branch []]

theorem print_ofSource_inverse_escapedCall :
    print escapedCall = "(f \"a\\\"\\\\\" - -1.5 ') ()" ∧
      ofSource 60 (print escapedCall) = .ok (program escapedCall) := by
  have hprint : print escapedCall = "(f \"a\\\"\\\\\" - -1.5 ') ()" := by decide
  refine ⟨hprint, print_ofSource_inverse.1 escapedCall 60 (by decide) ?_⟩
  exact print_ofSource_inverse.2.2 60 _ (by rw [hprint]; decide)

end Node

end Lisplet
