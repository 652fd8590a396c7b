import Lisplet.Proofs.Alike

/-!
# Frames are kept

An evaluation leaves the stack as deep as it found it, however it ends. It adds names to the
innermost frame at most, and only changes the values of names that the other frames have already.
In between, frames are pushed and released like brackets.

* `Environment.Keeps`: the frames before and after an evaluation;
* `Balanced`: the events of a stretch of a run in which every frame is released by itself;
* `preserved_orderly`: whatever evaluation does keeps the frames and records balanced events.
-/

namespace Lisplet

/-! ### The names of a frame -/

namespace Frame

theorem keys_set_of_get? {name : String} {old value : Value} {f : Frame}
    (h : f.get? name = some old) : (f.set name value).keys = f.keys := by
  induction f with
  | nil => simp at h
  | cons b rest ih =>
    obtain ⟨key, v⟩ := b
    by_cases hk : key = name
    · simp [set, keys, hk]
    · have hrest : get? name rest = some old := by simpa [get?, hk] using h
      simpa [set, keys, hk] using ih hrest

theorem keys_prefix_set (name : String) (value : Value) (f : Frame) :
    f.keys <+: (f.set name value).keys := by
  induction f with
  | nil => exact List.nil_prefix
  | cons b rest ih =>
    obtain ⟨key, v⟩ := b
    by_cases hk : key = name
    · simp [set, keys, hk]
    · simpa [set, keys, hk, List.cons_prefix_cons] using ih

end Frame

/-! ### The frames of an environment -/

namespace Environment

theorem keys_assignIn {name : String} {value : Value} {fs gs : List Frame}
    (h : assignIn name value fs = some gs) : gs.map Frame.keys = fs.map Frame.keys := by
  induction fs generalizing gs with
  | nil => simp [assignIn] at h
  | cons f fs ih =>
    unfold assignIn at h
    split at h
    · rename_i old hf
      cases h
      simp [Frame.keys_set_of_get? hf]
    · obtain ⟨gs', hgs, rfl⟩ := Option.map_eq_some_iff.1 h
      simp [ih hgs]

theorem eq_of_frames_eq {e e' : Environment} (h : e.frames = e'.frames) : e = e' := by
  obtain ⟨inner, outer⟩ := e
  obtain ⟨inner', outer'⟩ := e'
  cases h
  rfl

/-- A stack that is one frame too deep loses its innermost frame. -/
theorem frames_cutTo {e : Environment} {d : Nat} (hd : 0 < d) (h : e.depth = d + 1) :
    (e.cutTo d).frames = e.outer := by
  obtain ⟨inner, outer⟩ := e
  cases outer with
  | nil =>
    simp only [depth, List.length_nil] at h
    omega
  | cons f fs => simp [cutTo, h, drop, frames]

/-- The outer frames have the same names after as before, and the innermost one has at least the
names it had. -/
structure Keeps (e e' : Environment) : Prop where
  outer : e'.outer.map Frame.keys = e.outer.map Frame.keys
  inner : e.inner.keys <+: e'.inner.keys

namespace Keeps

variable {e e' e'' : Environment}

theorem refl (e : Environment) : Keeps e e := ⟨rfl, List.prefix_refl _⟩

theorem trans (h : Keeps e e') (h' : Keeps e' e'') : Keeps e e'' :=
  ⟨h'.outer.trans h.outer, h.inner.trans h'.inner⟩

theorem depth_eq (h : Keeps e e') : e'.depth = e.depth := by
  have := congrArg List.length h.outer
  simpa [depth] using this

theorem define (name : String) (value : Value) (e : Environment) : Keeps e (e.define name value) :=
  ⟨rfl, Frame.keys_prefix_set name value e.inner⟩

theorem assign {name : String} {value : Value} (h : e.assign name value = some e') :
    Keeps e e' := by
  unfold Environment.assign at h
  split at h
  · rename_i old hi
    cases h
    exact ⟨rfl, by simp [Frame.keys_set_of_get? hi]⟩
  · obtain ⟨outer, ho, rfl⟩ := Option.map_eq_some_iff.1 h
    exact ⟨keys_assignIn ho, List.prefix_refl _⟩

/-- What happens above a frame leaves every frame below it with the names it had. -/
theorem frames_cutTo (h : Keeps e.push e') :
    (e'.cutTo e.depth).frames.map Frame.keys = e.frames.map Frame.keys := by
  rw [Environment.frames_cutTo e.depth_pos h.depth_eq]
  exact h.outer

theorem cutTo (h : Keeps e.push e') : Keeps e (e'.cutTo e.depth) := by
  have hf := h.frames_cutTo
  simp only [frames, List.map_cons, List.cons.injEq] at hf
  exact ⟨hf.2, by simp [hf.1]⟩

end Keeps

end Environment

/-! ### Balanced events -/

/-- The events, oldest first, of a stretch of a run that starts and ends at a given depth: calls,
and frames each of which is pushed on a stack of that depth and released from a stack that is
deeper by just that frame. -/
inductive Balanced : Nat → List Event → Prop
  | nil {d : Nat} : Balanced d []
  | call {d : Nat} {e : Event} {es : List Event} : e.isCall = true → Balanced d es →
      Balanced d (e :: es)
  | frame {d : Nat} {es fs : List Event} : Balanced (d + 1) es → Balanced d fs →
      Balanced d (.pushed (d + 1) :: (es ++ .popped d 1 :: fs))

theorem Balanced.append {d : Nat} {es fs : List Event} (he : Balanced d es) (hf : Balanced d fs) :
    Balanced d (es ++ fs) := by
  induction he with
  | nil => exact hf
  | call hc _ ih => exact .call hc (ih hf)
  | @frame d es gs he _ _ ih =>
    rw [List.cons_append, List.append_assoc, List.cons_append]
    exact .frame he (ih hf)

/-- The machine before and the machine after an evaluation, as far as frames are concerned. -/
structure Orderly (m m' : Machine) : Prop where
  env : m.env.Keeps m'.env
  traced : m'.traced = m.traced
  events : m.traced = true →
    ∃ es, Balanced m.env.depth es ∧ m'.events = es.reverse ++ m.events

namespace Orderly

variable {m m' m'' : Machine}

/-- A change of the environment that records nothing. -/
theorem of_keeps (henv : m.env.Keeps m'.env) (ht : m'.traced = m.traced)
    (he : m'.events = m.events) : Orderly m m' :=
  ⟨henv, ht, fun _ => ⟨[], .nil, he⟩⟩

theorem trans (h : Orderly m m') (h' : Orderly m' m'') : Orderly m m'' where
  env := h.env.trans h'.env
  traced := h'.traced.trans h.traced
  events ht := by
    obtain ⟨es, hes, he⟩ := h.events ht
    obtain ⟨fs, hfs, hf⟩ := h'.events (h.traced.trans ht)
    rw [h.env.depth_eq] at hfs
    exact ⟨es ++ fs, hes.append hfs, by simp [hf, he]⟩

theorem note (m : Machine) {e : Event} (he : e.isCall = true) : Orderly m (m.note e) where
  env := by
    rw [Machine.env_note]
    exact .refl _
  traced := Machine.traced_note e m
  events ht := ⟨[e], .call he .nil, by simp [Machine.events_note, ht]⟩

/-- What is done in a frame of its own is orderly if it is orderly inside, and the release finds
just the frame that was pushed for it. -/
theorem frame (h : Orderly m.push m') : Orderly m (m'.release m.env.depth) := by
  have henv : m.env.push.Keeps m'.env := by simpa using h.env
  have hdepth : m'.env.depth = m.env.depth + 1 := henv.depth_eq
  have hrelease := Machine.release_of_lt (d := m.env.depth) (m := m') (by omega)
  rw [hdepth, Nat.add_sub_cancel_left] at hrelease
  refine ⟨?_, ?_, fun ht => ?_⟩
  · rw [Machine.env_release]
    exact henv.cutTo
  · rw [hrelease, Machine.traced_note]
    exact h.traced.trans m.traced_push
  · obtain ⟨es, hes, he⟩ := h.events (m.traced_push.trans ht)
    have ht' : m'.traced = true := h.traced.trans (m.traced_push.trans ht)
    rw [Machine.env_push, Environment.depth_push] at hes
    refine ⟨.pushed (m.env.depth + 1) :: (es ++ [.popped m.env.depth 1]), .frame hes .nil, ?_⟩
    simp [hrelease, Machine.events_note, ht', he, Machine.events_push, ht]

end Orderly

theorem preserved_orderly : Preserved Orderly where
  refl _ := .of_keeps (.refl _) rfl rfl
  trans := .trans
  define m x v := .of_keeps (.define x v m.env) rfl rfl
  assign h := .of_keeps (.assign h) rfl rfl
  print _ _ := .of_keeps (.refl _) rfl rfl
  note := .note
  fresh _ := .of_keeps (.refl _) rfl rfl
  frame := .frame

/-! ### Evaluation -/

/-- Recording the events does not change a run: with the recording turned on, it ends in the same
way and has recorded balanced events. -/
theorem eval_traced {fuel : Nat} {n : Node} {m m' : Machine} {r : Except Fault Value}
    (h : eval fuel n m = .done r m') :
    ∃ es, Balanced m.env.depth es ∧
      eval fuel n { m with traced := true } =
        .done r { m' with traced := true, events := es.reverse ++ m.events } := by
  have hm : m.Alike { m with traced := true } := ⟨rfl, rfl, rfl⟩
  obtain ⟨m₂, h₂, ha⟩ := eval_alike (Nat.le_refl fuel) hm h
  have ho := preserved_orderly.eval h₂
  obtain ⟨es, hes, he⟩ := ho.events rfl
  refine ⟨es, hes, h₂.trans ?_⟩
  obtain ⟨env, nextId, printed, traced, events⟩ := m₂
  have ht : traced = true := ho.traced
  obtain ⟨rfl, rfl, rfl⟩ := ha
  subst ht he
  rfl

theorem eval_program (fuel : Nat) (forest : List Node) :
    eval (fuel + 1) (.program forest) =
      Action.inFrame (Eval.sequence (eval fuel) .undefined forest) := rfl

/-- A source is evaluated in a frame of its own, so every frame below has the names it had. -/
theorem keys_evaluateSource {fuel : Nat} {limits : Limits} {source : String} {m m' : Machine}
    {r : Except Fault Value} (h : Interpreter.evaluateSource fuel limits source m = .done r m') :
    m'.env.frames.map Frame.keys = m.env.frames.map Frame.keys := by
  unfold Interpreter.evaluateSource at h
  cases ht : tokenize limits.tokenizerReads source with
  | error e =>
    rw [Action.bind_of_error (Interpreter.read_error ht m)] at h
    cases h
    rfl
  | ok ts =>
    obtain ⟨m₁, ha, hr⟩ := Interpreter.read_ok ht m
    rw [Action.bind_of_ok hr] at h
    cases fuel with
    | zero => cases h
    | succ fuel =>
      rw [Node.ofTokens, eval_program] at h
      obtain ⟨m₂, hs, rfl⟩ := Action.inFrame_eq_done h
      have hk : m₁.env.push.Keeps m₂.env := by simpa using (preserved_orderly.sequence hs).env
      rw [Machine.env_release, hk.frames_cutTo, ha.env]

/-- **Evaluation keeps the frames.** However it ends, the stack is as deep as before, the outer
frames have the names they had, the innermost one has at least these, and what it pushes and
releases is balanced; evaluating a source leaves the names of every frame as they were. -/
theorem evaluation_keeps_frames :
    (∀ (fuel : Nat) (n : Node) (m m' : Machine) (r : Except Fault Value),
      eval fuel n m = .done r m' →
        m'.env.depth = m.env.depth ∧
        m'.env.outer.map Frame.keys = m.env.outer.map Frame.keys ∧
        m.env.inner.keys ⊆ m'.env.inner.keys ∧
        ∃ es, Balanced m.env.depth es ∧
          eval fuel n { m with traced := true } =
            .done r { m' with traced := true, events := es.reverse ++ m.events }) ∧
    (∀ (fuel : Nat) (limits : Limits) (source : String) (m m' : Machine)
      (r : Except Fault Value), Interpreter.evaluateSource fuel limits source m = .done r m' →
        m'.env.frames.map Frame.keys = m.env.frames.map Frame.keys) := by
  refine ⟨fun fuel n m m' r h => ?_, fun fuel limits source m m' r h => keys_evaluateSource h⟩
  have hk := (preserved_orderly.eval h).env
  exact ⟨hk.depth_eq, hk.outer, hk.inner.subset, eval_traced h⟩

/-- The call `((fn (x) (progn (let y x) (y))) "a")` fails two frames deep, `"a"` not being a
function; the frame of the builtins is as it was, and both frames are released. -/
theorem evaluation_keeps_frames_of_failing_call :
    ∃ es, Balanced 1 es ∧
      eval 5 (.branch [.branch [.sym "fn", .branch [.sym "x"],
          .program [.branch [.sym "let", .sym "y", .sym "x"], .branch [.sym "y"]]],
          .atom ⟨.string, "a"⟩]) { traced := true } =
        .done (.error (.notCallable (.string "a")))
          { nextId := 1, traced := true, events := es.reverse ++ [] } :=
  (evaluation_keeps_frames.1 5 _ {} { nextId := 1 } _ rfl).2.2.2

end Lisplet
