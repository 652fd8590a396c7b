import Lisplet.Proofs.Alike
import Lisplet.Proofs.Frames
import Lisplet.Proofs.Join

/-!
# Evaluating a source piece by piece

A source that consists of two parts on lines of their own may be evaluated as a whole, or one part
after the other with the definitions of the first one staying. If the first part can be read for
itself, this makes no difference; nor does it make a difference whether the source is evaluated in
a frame of its own, or in the innermost frame after one was pushed.

* `Ends`: how an action that is given enough steps ends, events aside;
* `InTurn`: how two sources end that are evaluated one after the other;
* `ends_sequence_append`: nodes that are evaluated in turn may be split anywhere;
* `incremental_eq_batch`: the two ways to evaluate a joined source.
-/

namespace Lisplet

/-! ### How actions end that are given steps -/

/-- Given enough steps, an action ends with a result and leaves a machine like `m'`. -/
def Ends {α : Type} (x : Nat → Action α) (m : Machine) (r : Except Fault α) (m' : Machine) : Prop :=
  ∃ fuel m₁, x fuel m = .done r m₁ ∧ m₁.Alike m'

theorem ends_sequence_congr {last : Value} {ns : List Node} {m₁ m₂ m' : Machine}
    {r : Except Fault Value} (hm : m₁.Alike m₂) :
    Ends (fun fuel => Eval.sequence (eval fuel) last ns) m₁ r m' ↔
      Ends (fun fuel => Eval.sequence (eval fuel) last ns) m₂ r m' := by
  constructor
  · rintro ⟨fuel, n₁, h, hn⟩
    obtain ⟨n₂, h', hn'⟩ := sequence_alike (Nat.le_refl fuel) hm h
    exact ⟨fuel, n₂, h', hn'.symm.trans hn⟩
  · rintro ⟨fuel, n₂, h, hn⟩
    obtain ⟨n₁, h', hn'⟩ := sequence_alike (Nat.le_refl fuel) hm.symm h
    exact ⟨fuel, n₁, h', hn'.symm.trans hn⟩

theorem sequence_append (rec : Node → Action Value) (last : Value) (ns ks : List Node)
    (m : Machine) :
    Eval.sequence rec last (ns ++ ks) m =
      (Eval.sequence rec last ns >>= fun v => Eval.sequence rec v ks) m := by
  induction ns generalizing last m with
  | nil => rfl
  | cons n ns ih =>
    show Action.bind (rec n) (fun v => Eval.sequence rec v (ns ++ ks)) m =
      Action.bind (Action.bind (rec n) fun v => Eval.sequence rec v ns)
        (fun v => Eval.sequence rec v ks) m
    unfold Action.bind
    cases rec n m with
    | exhausted => rfl
    | done r m₁ =>
      cases r with
      | error e => rfl
      | ok v => exact ih v m₁

/-- Nodes that are evaluated in turn may be split anywhere: a fault among the first ones ends the
evaluation, and else the others go on from what the first ones left. -/
theorem ends_sequence_append {last : Value} {ns ks : List Node} {m m' : Machine}
    {r : Except Fault Value} :
    Ends (fun fuel => Eval.sequence (eval fuel) last (ns ++ ks)) m r m' ↔
      (∃ e, Ends (fun fuel => Eval.sequence (eval fuel) last ns) m (.error e) m' ∧ r = .error e) ∨
      ∃ v m₁, Ends (fun fuel => Eval.sequence (eval fuel) last ns) m (.ok v) m₁ ∧
        Ends (fun fuel => Eval.sequence (eval fuel) v ks) m₁ r m' := by
  constructor
  · rintro ⟨fuel, m₂, h, hm⟩
    have hsplit := (sequence_append (eval fuel) last ns ks m).symm.trans h
    rcases Action.bind_eq_done hsplit with ⟨e, h₁, rfl⟩ | ⟨v, m₁, h₁, h₂⟩
    · exact .inl ⟨e, ⟨fuel, m₂, h₁, hm⟩, rfl⟩
    · exact .inr ⟨v, m₁, ⟨fuel, m₁, h₁, .refl m₁⟩, fuel, m₂, h₂, hm⟩
  · rintro (⟨e, ⟨fuel, m₂, h, hm⟩, rfl⟩ | ⟨v, m₁, ⟨fuel₁, n₁, h₁, hn₁⟩, fuel₂, n₂, h₂, hn₂⟩)
    · refine ⟨fuel, m₂, (sequence_append (eval fuel) last ns ks m).trans ?_, hm⟩
      exact Action.bind_of_error h
    · -- Both parts end with the larger number of steps.
      obtain ⟨k₁, h₁', hk₁⟩ :=
        sequence_alike (Nat.le_max_left fuel₁ fuel₂) (.refl m) h₁
      obtain ⟨k₂, h₂', hk₂⟩ :=
        sequence_alike (Nat.le_max_right fuel₁ fuel₂) (hn₁.symm.trans hk₁) h₂
      refine ⟨max fuel₁ fuel₂, k₂, (sequence_append _ last ns ks m).trans ?_, hk₂.symm.trans hn₂⟩
      exact (Action.bind_of_ok h₁').trans h₂'

/-! ### Sources -/

namespace Interpreter

/-- The top-level expressions of a source. -/
def topLevel (limits : Limits) (source : String) : List Node :=
  match tokenize limits.tokenizerReads source with
  | .ok ts => Node.forestOf (ts.take (effectiveCap limits.parserReads))
  | .error _ => []

/-- How a source ends that is evaluated in the innermost frame. -/
def Persists (limits : Limits) (source : String) :
    Machine → Except Fault Value → Machine → Prop :=
  Ends fun fuel => evaluatePersistent fuel limits source

/-- How a source ends that is evaluated in a frame of its own. -/
def Scripts (limits : Limits) (source : String) : Machine → Except Fault Value → Machine → Prop :=
  Ends fun fuel => evaluateSource fuel limits source

/-- How two sources end that are evaluated in the innermost frame one after the other, the second
one only if the first one did not fail. Without an expression in the second one, the value is that
of the first. -/
inductive InTurn (limits : Limits) (s t : String) (m : Machine) :
    Except Fault Value → Machine → Prop
  | failed {e : Fault} {m' : Machine} : Persists limits s m (.error e) m' →
      InTurn limits s t m (.error e) m'
  | finished {v : Value} {r : Except Fault Value} {m₁ m' : Machine} :
      Persists limits s m (.ok v) m₁ → Persists limits t m₁ r m' →
      InTurn limits s t m (if (topLevel limits t).isEmpty then .ok v else r) m'

variable {limits : Limits} {source : String} {ts : List Token} {m m' : Machine}
  {r : Except Fault Value}

theorem topLevel_of_ok (h : tokenize limits.tokenizerReads source = .ok ts) :
    topLevel limits source = Node.forestOf (ts.take (effectiveCap limits.parserReads)) := by
  simp only [topLevel, h]

/-- Evaluating a source in the innermost frame is evaluating its expressions there. -/
theorem persists_iff (h : tokenize limits.tokenizerReads source = .ok ts) :
    Persists limits source m r m' ↔
      Ends (fun fuel => Eval.sequence (eval fuel) .undefined (topLevel limits source)) m r m' := by
  obtain ⟨m₁, ha, hr⟩ := read_ok h m
  have heq : ∀ fuel, evaluatePersistent fuel limits source m =
      Eval.sequence (eval fuel) .undefined (topLevel limits source) m₁ := by
    intro fuel
    rw [topLevel_of_ok h]
    exact Action.bind_of_ok hr
  rw [ends_sequence_congr ha]
  constructor
  · rintro ⟨fuel, m₂, hp, hm⟩
    exact ⟨fuel, m₂, (heq fuel).symm.trans hp, hm⟩
  · rintro ⟨fuel, m₂, hp, hm⟩
    exact ⟨fuel, m₂, (heq fuel).trans hp, hm⟩

/-- Evaluating a source in a frame of its own is evaluating its expressions after a frame was
pushed, and releasing the frame. -/
theorem scripts_iff (h : tokenize limits.tokenizerReads source = .ok ts) :
    Scripts limits source m r m' ↔
      ∃ m₁, Persists limits source m.push r m₁ ∧ (m₁.release m.env.depth).Alike m' := by
  obtain ⟨n, ha, hr⟩ := read_ok h m
  have heq : ∀ fuel, evaluateSource (fuel + 1) limits source m =
      Action.inFrame (Eval.sequence (eval fuel) .undefined (topLevel limits source)) n := by
    intro fuel
    rw [topLevel_of_ok h]
    exact Action.bind_of_ok hr
  constructor
  · rintro ⟨fuel, m₂, hs, hm⟩
    cases fuel with
    | zero =>
      have h0 : evaluateSource 0 limits source m = .exhausted := Action.bind_of_ok hr
      exact nomatch h0.symm.trans hs
    | succ fuel =>
      obtain ⟨m₁, hq, rfl⟩ := Action.inFrame_eq_done ((heq fuel).symm.trans hs)
      refine ⟨m₁, (persists_iff h).2 ?_, ha.env ▸ hm⟩
      rw [ends_sequence_congr ha.push]
      exact ⟨fuel, m₁, hq, .refl m₁⟩
  · rintro ⟨m₁, hp, hm⟩
    rw [persists_iff h, ends_sequence_congr ha.push] at hp
    obtain ⟨fuel, m₂, hq, hm₂⟩ := hp
    refine ⟨fuel + 1, m₂.release n.env.depth, (heq fuel).trans (Action.inFrame_of_done hq), ?_⟩
    rw [← ha.env]
    exact (hm₂.release m.env.depth).trans hm

/-! ### Joined sources -/

variable {s t : String} {us : List Token}

/-- If no cap trips on a joined source, none trips on its parts, and its expressions are those of
the first part and those of the second one. -/
theorem topLevel_join (hs : tokenize limits.tokenizerReads s = .ok ts)
    (ht : tokenize limits.tokenizerReads t = .ok us)
    (hstring : Scan.endsInString (effectiveCap limits.tokenizerReads) s.toList = false)
    (hopen : (Reading.run {} ts).height = 0) (hcap : capTrips limits (s ++ "\n" ++ t) = false) :
    tokenize limits.tokenizerReads (s ++ "\n" ++ t) = .ok (ts ++ us) ∧
      topLevel limits (s ++ "\n" ++ t) = topLevel limits s ++ topLevel limits t := by
  obtain ⟨htrunc, hcut⟩ := Bool.or_eq_false_iff.1 hcap
  have hjoin := Scan.tokenize_join hs ht hstring htrunc
  refine ⟨hjoin, ?_⟩
  have hlen : (ts ++ us).length ≤ effectiveCap limits.parserReads := by
    simpa [hjoin, Node.isCut] using hcut
  have hlens : ts.length ≤ effectiveCap limits.parserReads := by
    rw [List.length_append] at hlen
    omega
  have hlent : us.length ≤ effectiveCap limits.parserReads := by
    rw [List.length_append] at hlen
    omega
  rw [topLevel_of_ok hs, topLevel_of_ok ht, topLevel_of_ok hjoin, List.take_of_length_le hlen,
    List.take_of_length_le hlens, List.take_of_length_le hlent]
  exact Node.forestOf_append hopen

/-- A joined source ends as its parts end that are evaluated in turn. -/
theorem persists_join (hs : tokenize limits.tokenizerReads s = .ok ts)
    (ht : tokenize limits.tokenizerReads t = .ok us)
    (hjoin : tokenize limits.tokenizerReads (s ++ "\n" ++ t) = .ok (ts ++ us))
    (htop : topLevel limits (s ++ "\n" ++ t) = topLevel limits s ++ topLevel limits t) :
    Persists limits (s ++ "\n" ++ t) m r m' ↔ InTurn limits s t m r m' := by
  rw [persists_iff hjoin, htop, ends_sequence_append]
  constructor
  · rintro (⟨e, he, rfl⟩ | ⟨v, m₁, h₁, h₂⟩)
    · exact .failed ((persists_iff hs).2 he)
    · have h₁ := (persists_iff hs).2 h₁
      cases hks : topLevel limits t with
      | nil =>
        rw [hks] at h₂
        obtain ⟨fuel, m₂, hm₂, ha⟩ := h₂
        cases hm₂
        have h₂ : Persists limits t m₁ (.ok .undefined) m' := by
          rw [persists_iff ht, hks]
          exact ⟨0, m₁, rfl, ha⟩
        simpa [hks] using InTurn.finished h₁ h₂
      | cons n ns =>
        have h₂ : Persists limits t m₁ r m' := by
          rw [persists_iff ht, hks]
          rwa [hks] at h₂
        simpa [hks] using InTurn.finished h₁ h₂
  · rintro (he | ⟨h₁, h₂⟩)
    · exact .inl ⟨_, (persists_iff hs).1 he, rfl⟩
    · rename_i v r m₁
      refine .inr ⟨v, m₁, (persists_iff hs).1 h₁, ?_⟩
      rw [persists_iff ht] at h₂
      cases hks : topLevel limits t with
      | nil =>
        rw [hks] at h₂
        obtain ⟨fuel, m₂, hm₂, ha⟩ := h₂
        cases hm₂
        exact ⟨0, m₁, rfl, ha⟩
      | cons n ns =>
        rw [hks] at h₂
        exact h₂

/-- **Evaluating a source piece by piece is evaluating it as a whole.** -/
theorem incremental_eq_batch (limits : Limits) (s t : String) (ts us : List Token)
    (hs : tokenize limits.tokenizerReads s = .ok ts)
    (ht : tokenize limits.tokenizerReads t = .ok us)
    (hstring : Scan.endsInString (effectiveCap limits.tokenizerReads) s.toList = false)
    (hopen : (Reading.run {} ts).height = 0) (hcap : capTrips limits (s ++ "\n" ++ t) = false)
    (m : Machine) (r : Except Fault Value) :
    (∀ m', Persists limits (s ++ "\n" ++ t) m r m' ↔ InTurn limits s t m r m') ∧
    ∀ lines, (∃ m', Scripts limits (s ++ "\n" ++ t) m r m' ∧ m'.printed = lines) ↔
      ∃ m', InTurn limits s t m.push r m' ∧ m'.printed = lines := by
  obtain ⟨hjoin, htop⟩ := topLevel_join hs ht hstring hopen hcap
  refine ⟨fun m' => persists_join hs ht hjoin htop, fun lines => ?_⟩
  constructor
  · rintro ⟨m', h, rfl⟩
    obtain ⟨m₁, h₁, ha⟩ := (scripts_iff hjoin).1 h
    refine ⟨m₁, (persists_join hs ht hjoin htop).1 h₁, ?_⟩
    rw [← ha.printed, Machine.printed_release]
  · rintro ⟨m₁, h₁, rfl⟩
    have h₁ := (persists_join hs ht hjoin htop).2 h₁
    exact ⟨m₁.release m.env.depth, (scripts_iff hjoin).2 ⟨m₁, h₁, .refl _⟩,
      Machine.printed_release _ _⟩

/-- A definition on one line and its name on the next one, with caps of thirty. -/
theorem incremental_eq_batch_definition :
    ∃ m', Scripts (.both 30) ("(let x \"a\")" ++ "\n" ++ "x") {} (.ok (.string "a")) m' ∧
      m'.printed = [] := by
  have hs : tokenize (Limits.both 30).tokenizerReads "(let x \"a\")" =
      .ok [.opening, .sym "let", .sym "x", ⟨.string, "a"⟩, .closing] := rfl
  have ht : tokenize (Limits.both 30).tokenizerReads "x" = .ok [.sym "x"] := rfl
  have hcap : capTrips (.both 30) ("(let x \"a\")" ++ "\n" ++ "x") = false := by
    have hjoin : ("(let x \"a\")" ++ "\n" ++ "x").toList = "(let x \"a\")\nx".toList := by simp
    unfold capTrips tokenize
    rw [hjoin]
    rfl
  have h := incremental_eq_batch (.both 30) _ _ _ _ hs ht rfl rfl hcap {} (.ok (.string "a"))
  refine (h.2 []).2 ⟨({} : Machine).push.define "x" (.string "a"), ?_, rfl⟩
  have h₁ : Persists (.both 30) "(let x \"a\")" ({} : Machine).push (.ok (.string "a"))
      (({} : Machine).push.define "x" (.string "a")) := by
    rw [persists_iff hs, topLevel_of_ok hs]
    exact ⟨5, _, rfl, .refl _⟩
  have h₂ : Persists (.both 30) "x" (({} : Machine).push.define "x" (.string "a"))
      (.ok (.string "a")) (({} : Machine).push.define "x" (.string "a")) := by
    rw [persists_iff ht, topLevel_of_ok ht]
    exact ⟨5, _, rfl, .refl _⟩
  simpa using InTurn.finished h₁ h₂

end Interpreter

end Lisplet
