import Lisplet.CommandLine
import Lisplet.Proofs.Alike
import Lisplet.Proofs.TokenCount

/-!
# The cap on reading

A source is scanned under one cap and its tokens are read under another. If the second one is not
lower than the first, it is never reached, so that the tree has every token of the source. Both are
the same wherever a source is read under one limit, in a session, and in a run that is given a
limit of its own, whatever the limits of the program are.

* `Machine.Uncut`: no source was cut short by the cap on reading;
* `Interpreter.uncut_read`, `Interpreter.uncut_evaluateSource`: a source that is read, or evaluated;
* `Repl.Report`, `Repl.uncut_step`, `Repl.uncut_run`: what a session reports;
* `CommandLine.execute_of_tokenize`, `CommandLine.uncut_execute`: what a run evaluates and writes;
* `scanned_tokens_are_read`: every token that is scanned is read.
-/

namespace Lisplet

/-! ### Runs without a source that is cut short -/

/-- If it is recorded that the cap on reading was reached, then it was recorded before. -/
def Machine.Uncut (m m' : Machine) : Prop :=
  ∀ k, Event.readCut k ∈ m'.events → Event.readCut k ∈ m.events

namespace Machine.Uncut

variable {m m' m'' : Machine}

theorem of_events_eq (h : m'.events = m.events) : Uncut m m' := fun _ hk => h ▸ hk

theorem trans (h : Uncut m m') (h' : Uncut m' m'') : Uncut m m'' := fun k hk => h k (h' k hk)

theorem note {e : Event} (he : ∀ k, e ≠ .readCut k) (m : Machine) : Uncut m (m.note e) := by
  intro k hk
  rw [Machine.events_note] at hk
  split at hk
  · rcases List.mem_cons.1 hk with rfl | hk
    · exact absurd rfl (he k)
    · exact hk
  · exact hk

theorem release (d : Nat) (m : Machine) : Uncut m (m.release d) := by
  rcases Nat.lt_or_ge d m.env.depth with h | h
  · rw [Machine.release_of_lt h]
    exact note (fun _ => Event.noConfusion) _
  · rw [Machine.release_of_le h]
    exact of_events_eq rfl

end Machine.Uncut

/-- Only reading a source records that the cap on reading was reached. -/
theorem preserved_uncut : Preserved Machine.Uncut where
  refl _ := .of_events_eq rfl
  trans := .trans
  define _ _ _ := .of_events_eq rfl
  assign _ := .of_events_eq rfl
  print _ _ := .of_events_eq rfl
  note m e he := .note (by rintro k rfl; cases he) m
  fresh _ := .of_events_eq rfl
  frame {m m'} h :=
    have hpush : m.Uncut m.push := .note (fun _ => Event.noConfusion) _
    hpush.trans (h.trans (.release _ m'))

namespace Interpreter

variable {limits : Limits} {source : String}
  (hcap : effectiveCap limits.tokenizerReads ≤ effectiveCap limits.parserReads)

include hcap

/-- A source is read with all its tokens. -/
theorem uncut_read {ts : List Token} (h : tokenize limits.tokenizerReads source = .ok ts)
    (m : Machine) :
    ∃ m', read limits source m = .done (.ok (.program (Node.forestOf ts))) m' ∧ m.Uncut m' := by
  have hcut := isCut_of_tokenize hcap h
  have htree := ofTokens_of_tokenize hcap h
  unfold tokenize at h
  unfold read
  simp only [h, hcut, htree]
  have hparsed : ∀ m : Machine, m.Uncut (m.note (.parsed ts.length
      (Node.program (Node.forestOf ts)).count)) := .note fun _ => Event.noConfusion
  cases (scan (effectiveCap limits.tokenizerReads) source.toList).truncated with
  | false => exact ⟨_, rfl, hparsed m⟩
  | true =>
    have hscanned : m.Uncut (m.note (.scanCut ts.length)) := .note (fun _ => Event.noConfusion) m
    exact ⟨_, rfl, hscanned.trans (hparsed _)⟩

/-- What is done with a source after it was read, if that does not read another one. -/
theorem uncut_bind {x : Node → Action Value}
    (hx : ∀ {root m m' r}, x root m = .done r m' → m.Uncut m') {m m' : Machine}
    {r : Except Fault Value} (h : Action.bind (read limits source) x m = .done r m') :
    m.Uncut m' := by
  cases ht : tokenize limits.tokenizerReads source with
  | error e =>
    cases (Action.bind_of_error (read_error ht m)).symm.trans h
    exact .of_events_eq rfl
  | ok ts =>
    obtain ⟨m₁, hread, hm₁⟩ := uncut_read hcap ht m
    exact hm₁.trans (hx ((Action.bind_of_ok hread).symm.trans h))

theorem uncut_evaluateSource {fuel : Nat} {m m' : Machine} {r : Except Fault Value}
    (h : evaluateSource fuel limits source m = .done r m') : m.Uncut m' :=
  uncut_bind hcap preserved_uncut.eval h

theorem uncut_evaluatePersistent {fuel : Nat} {m m' : Machine} {r : Except Fault Value}
    (h : evaluatePersistent fuel limits source m = .done r m') : m.Uncut m' :=
  uncut_bind hcap preserved_uncut.sequence h

end Interpreter

/-! ### Sessions -/

namespace Repl

/-- What a session reports: an event, but not that the cap on reading was reached, a fault, or that
no line could be read. -/
inductive Report : String → Prop
  | event {e : Event} : (∀ k, e ≠ .readCut k) → Report (e.line ++ "\n")
  | fault (e : Fault) : Report (e.report ++ "\n")
  | failure (reason : String) : Report ("read error: " ++ reason ++ "\n")

/-- A session that has reported nothing else, and has all events of its machine reported. -/
structure State.Uncut (s : State) : Prop where
  events : s.machine.events = []
  reports : ∀ text ∈ s.err, Report text

/-- An answer that keeps it so. -/
def Next.Uncut : Next → Prop
  | .go s => s.Uncut
  | .stop _ s => s.Uncut
  | .exhausted => True

variable {fuel : Nat} {s : State}

theorem State.Uncut.report {text : String} (hs : s.Uncut) (ht : Report text) :
    (s.report text).Uncut :=
  ⟨hs.events, List.forall_mem_cons.2 ⟨ht, hs.reports⟩⟩

theorem State.Uncut.drain {m : Machine} (hm : ∀ k, Event.readCut k ∉ m.events)
    (hs : ∀ text ∈ s.err, Report text) : (s.drain m).Uncut := by
  refine ⟨rfl, fun text ht => ?_⟩
  rcases List.mem_append.1 ht with ht | ht
  · obtain ⟨e, he, rfl⟩ := List.mem_map.1 ht
    refine .event ?_
    rintro k rfl
    exact hm k he
  · exact hs text ht

theorem uncut_initial (traced : Bool) : (State.initial traced).Uncut := by
  refine .drain (fun k => ?_) (fun _ ht => nomatch ht)
  cases traced <;> simp [State.start, Machine.events_push]

theorem uncut_evaluate (hs : s.Uncut) (text : String) : (evaluate fuel text s).Uncut := by
  unfold evaluate
  cases h : Interpreter.evaluatePersistent fuel {} text s.machine with
  | exhausted => trivial
  | done r m =>
    have hm : ∀ k, Event.readCut k ∉ m.events := by
      intro k hk
      have hbefore := Interpreter.uncut_evaluatePersistent (Nat.le_refl _) h k hk
      rw [hs.events] at hbefore
      cases hbefore
    have hdrain : ((s.remember text).drain m).Uncut := .drain hm hs.reports
    cases r with
    | error e => exact hdrain.report (.fault e)
    | ok v =>
      obtain ⟨out, hout⟩ := ((s.remember text).drain m).exists_display v
      simp only [hout]
      exact ⟨hdrain.events, hdrain.reports⟩

theorem uncut_handle (hs : s.Uncut) (text : String) : (handle fuel text s).Uncut := by
  unfold handle
  split
  · exact hs
  · split
    · exact hs
    · exact ⟨hs.events, hs.reports⟩
  · exact uncut_evaluate hs text

theorem uncut_step (hs : s.Uncut) (a : Answer) : (step fuel s a).Uncut := by
  have hcleared : State.Uncut { s with pending := "" } := ⟨hs.events, hs.reports⟩
  cases a with
  | line text =>
    simp only [step]
    split
    · exact uncut_handle hcleared _
    · exact ⟨hs.events, hs.reports⟩
  | abort => exact hcleared
  | eof =>
    simp only [step]
    split
    · exact ⟨hs.events, hs.reports⟩
    · exact uncut_handle hcleared _
  | failure reason => exact hs.report (.failure reason)

theorem uncut_ask (fuel : Nat) (hs : s.Uncut) (echo : Bool) (a : Answer) :
    (ask fuel echo s a).Uncut := by
  cases echo with
  | false => exact uncut_step hs a
  | true => exact uncut_step (s := s.print s.prompt) ⟨hs.events, hs.reports⟩ a

theorem uncut_run {echo : Bool} {shown : List String} {answers : List Answer} {t : Transcript}
    (hs : s.Uncut) (h : run fuel echo shown s answers = some t) : t.final.Uncut := by
  induction answers generalizing s shown with
  | nil =>
    have heof := uncut_ask fuel hs echo .eof
    rw [run] at h
    cases hask : ask fuel echo s .eof with
    | exhausted =>
      simp only [hask] at h
      cases h
    | stop code final =>
      simp only [hask] at h heof
      cases h
      exact heof
    | go next =>
      simp only [hask] at h heof
      have heof' := uncut_ask fuel heof echo .eof
      cases hask' : ask fuel echo next .eof with
      | exhausted =>
        simp only [hask'] at h
        cases h
      | stop code final =>
        simp only [hask'] at h heof'
        cases h
        exact heof'
      | go next' =>
        simp only [hask'] at h
        cases h
  | cons a rest ih =>
    have hanswer := uncut_ask fuel hs echo a
    rw [run] at h
    cases hask : ask fuel echo s a with
    | exhausted =>
      simp only [hask] at h
      cases h
    | stop code final =>
      simp only [hask] at h hanswer
      cases h
      exact hanswer
    | go next =>
      simp only [hask] at h hanswer
      exact ih hanswer h

end Repl

/-! ### Runs of a program -/

/-- A positive limit for both takes the place of whatever limits there are. -/
theorem Limits.override_both {n : Int} (hn : 0 < n) (l : Limits) :
    l.override (.both n) = .both n := by
  simp [override, both, hn]

namespace CommandLine

variable {program : Program} {limits : Limits}
  (hcap : effectiveCap limits.tokenizerReads ≤ effectiveCap limits.parserReads)

include hcap

/-- A program is evaluated with all its tokens. -/
theorem execute_of_tokenize {ts : List Token}
    (h : tokenize limits.tokenizerReads program.source = .ok ts) (traced : Bool) :
    ∃ m, (loaded program traced).Uncut m ∧
      execute program limits traced =
        .ofEvaluation (eval Interpreter.steps (.program (Node.forestOf ts)) m) := by
  obtain ⟨m, hread, hm⟩ := Interpreter.uncut_read hcap h (loaded program traced)
  exact ⟨m, hm, congrArg Task.ofEvaluation (Action.bind_of_ok hread)⟩

/-- A run that ends was never cut short by the cap on reading, and writes what it recorded. -/
theorem uncut_execute {traced : Bool} {o : Outcome}
    (h : execute program limits traced = .finished o) :
    ∃ r m, Interpreter.evaluateSource Interpreter.steps limits program.source
        (loaded program traced) = .done r m ∧
      (∀ k, Event.readCut k ∉ m.events) ∧
      ((∃ v, r = .ok v ∧ o.err = m.log) ∨
        ∃ e, r = .error e ∧ o.err = m.log ++ e.report ++ "\n") := by
  have hstart : ∀ k, Event.readCut k ∉ (loaded program traced).events := by
    intro k
    cases traced <;> simp [loaded, Machine.events_note]
  rw [execute] at h
  cases hdone : Interpreter.evaluateSource Interpreter.steps limits program.source
      (loaded program traced) with
  | exhausted =>
    rw [hdone] at h
    cases h
  | done r m =>
    have hm := Interpreter.uncut_evaluateSource hcap hdone
    refine ⟨r, m, rfl, fun k hk => hstart k (hm k hk), ?_⟩
    rw [hdone] at h
    cases r with
    | ok v =>
      cases h
      exact .inl ⟨v, rfl, rfl⟩
    | error e =>
      cases h
      exact .inr ⟨e, rfl, rfl⟩

end CommandLine

/-! ### All tokens are read -/

/-- **Every token that is scanned is read.** Suppose that the cap on reading is not lower than the
one on scanning. Then a source has at most as many tokens as the cap on scanning, so that the cap on
reading is not reached, and the tree holds all of them. This is so if one limit holds for both, as
in reading a tree from a source; in a session, which never reports that the cap was reached; and in
a run with a positive limit of its own, which takes the place of any limits of the program. Such a
run evaluates the tree of all tokens that are scanned, and if it ends, then the log that it writes
does not say that the cap was reached. -/
theorem scanned_tokens_are_read :
    (∀ (limits : Limits) (source : String) (ts : List Token),
      effectiveCap limits.tokenizerReads ≤ effectiveCap limits.parserReads →
      tokenize limits.tokenizerReads source = .ok ts →
        ts.length ≤ effectiveCap limits.tokenizerReads ∧
        Reading.runUnder (effectiveCap limits.parserReads) {} 0 ts = (Reading.run {} ts, false) ∧
        Node.ofTokens (effectiveCap limits.parserReads) ts = .program (Node.forestOf ts) ∧
        (Node.flattenAll (Node.forestOf ts)).filter Token.isPlain = ts.filter Token.isPlain ∧
        ∀ m, ∃ m', Interpreter.read limits source m =
          .done (.ok (.program (Node.forestOf ts))) m' ∧ m.Uncut m') ∧
    (∀ (limit : Int) (source : String) (root : Node), Node.ofSource limit source = .ok root →
      ∃ ts, tokenize limit source = .ok ts ∧ ts.length ≤ effectiveCap limit ∧
        root = .program (Node.forestOf ts)) ∧
    (∀ (fuel : Nat) (echo traced : Bool) (answers : List Repl.Answer) (t : Repl.Transcript),
      Repl.run fuel echo [] (.initial traced) answers = some t →
        ∀ text ∈ t.final.err, Repl.Report text) ∧
    ∀ (program : Program) (n : Int) (traced : Bool), 0 < n →
      program.limits.override (.both n) = .both n ∧
      (∀ ts, tokenize n program.source = .ok ts →
        ∃ m, (CommandLine.loaded program traced).Uncut m ∧
          CommandLine.execute program (program.limits.override (.both n)) traced =
            .ofEvaluation (eval Interpreter.steps (.program (Node.forestOf ts)) m)) ∧
      ∀ o, CommandLine.execute program (program.limits.override (.both n)) traced = .finished o →
        ∃ r m, Interpreter.evaluateSource Interpreter.steps (.both n) program.source
            (CommandLine.loaded program traced) = .done r m ∧
          (∀ k, Event.readCut k ∉ m.events) ∧
          ((∃ v, r = .ok v ∧ o.err = m.log) ∨
            ∃ e, r = .error e ∧ o.err = m.log ++ e.report ++ "\n") := by
  refine ⟨fun limits source ts hcap h => ?_, fun limit source root h => ?_, ?_, ?_⟩
  · exact ⟨length_tokenize h, runUnder_of_tokenize hcap h, ofTokens_of_tokenize hcap h,
      Node.filter_flattenAll_forestOf ts, Interpreter.uncut_read hcap h⟩
  · rw [Node.ofSource] at h
    cases ht : tokenize limit source with
    | error e =>
      rw [ht] at h
      cases h
    | ok ts =>
      rw [ht] at h
      cases h
      exact ⟨ts, rfl, length_tokenize ht, ofTokens_of_tokenize (Nat.le_refl _) ht⟩
  · intro fuel echo traced answers t h
    exact (Repl.uncut_run (Repl.uncut_initial traced) h).reports
  · intro program n traced hn
    have hboth := Limits.override_both hn program.limits
    rw [hboth]
    exact ⟨rfl, fun ts h => CommandLine.execute_of_tokenize (Nat.le_refl _) h traced,
      fun o h => CommandLine.uncut_execute (Nat.le_refl _) h⟩

/-- A program with a limit of five for scanning and of two for reading. -/
def unreadSymbol : Program where
  name := "p"
  source := "((a"
  origin := "p.tl"
  limits := ⟨5, 2⟩

/-- Three tokens under caps of three, the last of them ended by the end of the source, for which no
attempt is left; a traced session of two lines; and a run under a limit of three in place of those
of the program, which would leave a token unread: it evaluates the tree of all three. -/
theorem scanned_tokens_are_read_at_cap :
    Reading.runUnder 3 {} 0 [.opening, .opening, .sym "a"] = (⟨[.sym "a"], [[], []]⟩, false) ∧
      (∃ ts, tokenize 3 "((a" = .ok ts ∧ ts.length ≤ 3 ∧
        Node.program [.branch [.branch [.sym "a"]]] = .program (Node.forestOf ts)) ∧
      (∃ t, Repl.run 9 false [] (.initial true) [.line "(print", .line "1)"] = some t ∧
        t.final.err.length = 3 ∧ ∀ text ∈ t.final.err, Repl.Report text) ∧
      Node.isCut 2 [.opening, .opening, .sym "a"] = true ∧
      (∃ m, (CommandLine.loaded unreadSymbol true).Uncut m ∧
        CommandLine.execute unreadSymbol (unreadSymbol.limits.override (.both 3)) true =
          .ofEvaluation
            (eval Interpreter.steps (.program [.branch [.branch [.sym "a"]]]) m)) ∧
      ∃ o, CommandLine.execute unreadSymbol (unreadSymbol.limits.override (.both 3)) true =
          .finished o ∧
        ∃ r m, Interpreter.evaluateSource Interpreter.steps (.both 3) unreadSymbol.source
            (CommandLine.loaded unreadSymbol true) = .done r m ∧
          (∀ k, Event.readCut k ∉ m.events) ∧
          ((∃ v, r = .ok v ∧ o.err = m.log) ∨
            ∃ e, r = .error e ∧ o.err = m.log ++ e.report ++ "\n") := by
  obtain ⟨htokens, htree, hsession, hrun⟩ := scanned_tokens_are_read
  have hscan : tokenize 3 "((a" = .ok [.opening, .opening, .sym "a"] := rfl
  have hlength : (Repl.run 9 false [] (.initial true) [.line "(print", .line "1)"]).map
      (fun t => t.final.err.length) = some 3 := by decide +kernel
  obtain ⟨t, ht, hlen⟩ := Option.map_eq_some_iff.1 hlength
  obtain ⟨-, hevaluates, hfinishes⟩ := hrun unreadSymbol 3 true (by decide)
  refine ⟨?_, ?_, ⟨t, ht, hlen, hsession 9 false true _ t ht⟩, rfl, hevaluates _ hscan, ?_⟩
  · exact (htokens ⟨3, 3⟩ "((a" _ (by decide) hscan).2.1
  · exact htree 3 "((a" _ rfl
  · have hfinished : (match CommandLine.execute unreadSymbol
        (unreadSymbol.limits.override (.both 3)) true with
        | .finished _ => true
        | _ => false) = true := by decide +kernel
    split at hfinished
    · rename_i o ho
      exact ⟨o, ho, hfinishes o ho⟩
    · cases hfinished

end Lisplet
