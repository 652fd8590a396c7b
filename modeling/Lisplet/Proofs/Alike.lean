import Lisplet.Interpreter
import Lisplet.Proofs.Simulation

/-!
# What a run does not depend on

The events that a machine records are never read, and a run that ended would have ended in the
same way with more steps. So machines that are alike, that is, differ only in their events, run
alike, and any two runs of one node that end agree.

* `Machine.Alike`: the same environment, next identity and printed lines;
* `eval_alike`, `eval_mono`, `eval_unique`: evaluation on machines that are alike;
* `Interpreter.read_ok`, `Interpreter.read_error`: what reading a source does to a machine.
-/

namespace Lisplet

namespace Machine

/-! ### The parts of a changed machine -/

@[simp] theorem env_note (e : Event) (m : Machine) : (m.note e).env = m.env := by
  unfold note
  split <;> rfl

@[simp] theorem nextId_note (e : Event) (m : Machine) : (m.note e).nextId = m.nextId := by
  unfold note
  split <;> rfl

@[simp] theorem printed_note (e : Event) (m : Machine) : (m.note e).printed = m.printed := by
  unfold note
  split <;> rfl

@[simp] theorem traced_note (e : Event) (m : Machine) : (m.note e).traced = m.traced := by
  unfold note
  split <;> rfl

theorem events_note (e : Event) (m : Machine) :
    (m.note e).events = if m.traced then e :: m.events else m.events := by
  unfold note
  split <;> rfl

@[simp] theorem env_push (m : Machine) : m.push.env = m.env.push := env_note _ _

@[simp] theorem nextId_push (m : Machine) : m.push.nextId = m.nextId := nextId_note _ _

@[simp] theorem printed_push (m : Machine) : m.push.printed = m.printed := printed_note _ _

@[simp] theorem traced_push (m : Machine) : m.push.traced = m.traced := traced_note _ _

theorem events_push (m : Machine) :
    m.push.events = if m.traced then .pushed (m.env.depth + 1) :: m.events else m.events :=
  events_note _ _

theorem release_of_lt {d : Nat} {m : Machine} (h : d < m.env.depth) :
    m.release d =
      ({ m with env := m.env.cutTo d } : Machine).note (.popped d (m.env.depth - d)) :=
  if_pos h

theorem release_of_le {d : Nat} {m : Machine} (h : m.env.depth ≤ d) : m.release d = m :=
  if_neg (Nat.not_lt.2 h)

/-- Releasing cuts the stack, also where there is nothing to cut. -/
@[simp] theorem env_release (d : Nat) (m : Machine) : (m.release d).env = m.env.cutTo d := by
  rcases Nat.lt_or_ge d m.env.depth with h | h
  · rw [release_of_lt h, env_note]
  · rw [release_of_le h, Environment.cutTo, Nat.sub_eq_zero_of_le h, Environment.drop]

@[simp] theorem nextId_release (d : Nat) (m : Machine) : (m.release d).nextId = m.nextId := by
  rcases Nat.lt_or_ge d m.env.depth with h | h
  · rw [release_of_lt h, nextId_note]
  · rw [release_of_le h]

@[simp] theorem printed_release (d : Nat) (m : Machine) : (m.release d).printed = m.printed := by
  rcases Nat.lt_or_ge d m.env.depth with h | h
  · rw [release_of_lt h, printed_note]
  · rw [release_of_le h]

/-! ### Machines that are alike -/

/-- Two machines differ at most in what is recorded about their runs. -/
structure Alike (m₁ m₂ : Machine) : Prop where
  env : m₁.env = m₂.env
  nextId : m₁.nextId = m₂.nextId
  printed : m₁.printed = m₂.printed

namespace Alike

variable {m₁ m₂ m₃ : Machine}

theorem refl (m : Machine) : Alike m m := ⟨rfl, rfl, rfl⟩

theorem symm (h : Alike m₁ m₂) : Alike m₂ m₁ := ⟨h.env.symm, h.nextId.symm, h.printed.symm⟩

theorem trans (h : Alike m₁ m₂) (h' : Alike m₂ m₃) : Alike m₁ m₃ :=
  ⟨h.env.trans h'.env, h.nextId.trans h'.nextId, h.printed.trans h'.printed⟩

theorem push (h : Alike m₁ m₂) : Alike m₁.push m₂.push :=
  ⟨by simp [h.env], by simp [h.nextId], by simp [h.printed]⟩

theorem release (h : Alike m₁ m₂) (d : Nat) : Alike (m₁.release d) (m₂.release d) :=
  ⟨by simp [h.env], by simp [h.nextId], by simp [h.printed]⟩

/-- Evaluation cannot tell machines apart that are alike. -/
def simulation : Simulation .everything Unit where
  related _ m₁ m₂ := Alike m₁ m₂
  lookup_eq h _ := by rw [h.env]
  value_lookup _ _ _ := trivial
  define h _ _ := ⟨by simp [Machine.define, h.env], h.nextId, h.printed⟩
  assign {_ m₁ m₂ x _ v} h _ _ _ := by
    cases he : m₁.env.assign x v with
    | none => exact .inl ⟨rfl, h.env ▸ he⟩
    | some e => exact .inr ⟨e, e, rfl, h.env ▸ he, rfl, h.nextId, h.printed⟩
  print line h := ⟨h.env, h.nextId, by simp [Machine.print, h.printed]⟩
  note h _ := ⟨by simp [h.env], by simp [h.nextId], by simp [h.printed]⟩
  nextId_eq h := h.nextId
  fresh h := ⟨h.env, by simp [h.nextId], h.printed⟩
  frame {_ m₁ m₂} h := by
    refine ⟨(), h.push, fun m₁' m₂' h' => ?_⟩
    rw [h.env]
    exact h'.release m₂.env.depth

end Alike

end Machine

/-! ### Evaluation -/

section

variable {fuel₁ fuel₂ : Nat} {n : Node} {m m₁ m₂ m₁' m₂' : Machine} {r r₁ r₂ : Except Fault Value}

/-- Evaluation on a machine that is alike, with at least as many steps. -/
theorem eval_alike (hfuel : fuel₁ ≤ fuel₂) (hm : m₁.Alike m₂) (h : eval fuel₁ n m₁ = .done r m₁') :
    ∃ m₂', eval fuel₂ n m₂ = .done r m₂' ∧ m₁'.Alike m₂' := by
  obtain ⟨m₂', h', hm', -⟩ := Machine.Alike.simulation.follows_eval hfuel trivial (i := ()) hm h
  exact ⟨m₂', h', hm'⟩

/-- A list of nodes, evaluated in turn on a machine that is alike. -/
theorem sequence_alike {last : Value} {ns : List Node} (hfuel : fuel₁ ≤ fuel₂) (hm : m₁.Alike m₂)
    (h : Eval.sequence (eval fuel₁) last ns m₁ = .done r m₁') :
    ∃ m₂', Eval.sequence (eval fuel₂) last ns m₂ = .done r m₂' ∧ m₁'.Alike m₂' := by
  have hns : ∀ n ∈ ns, Vocabulary.everything.node n := fun _ _ => trivial
  have hlast : Vocabulary.everything.value last := trivial
  obtain ⟨m₂', h', hm', -⟩ :=
    Machine.Alike.simulation.follows_sequence hfuel hns hlast (i := ()) hm h
  exact ⟨m₂', h', hm'⟩

theorem preserved_true : Preserved fun _ _ => True := by
  constructor <;> intros <;> trivial

/-- A run that ended is not changed by more steps. -/
theorem eval_mono (hfuel : fuel₁ ≤ fuel₂) (h : eval fuel₁ n m = .done r m₁') :
    eval fuel₂ n m = .done r m₁' := by
  obtain ⟨m₂', h', ⟨rfl, -⟩, -⟩ :=
    preserved_true.simulation.follows_eval hfuel trivial (i := m) ⟨rfl, trivial⟩ h
  exact h'

/-- Any two runs that ended agree, whatever number of steps they were given. -/
theorem eval_unique (h₁ : eval fuel₁ n m = .done r₁ m₁') (h₂ : eval fuel₂ n m = .done r₂ m₂') :
    r₁ = r₂ ∧ m₁' = m₂' := by
  have h₁ := eval_mono (Nat.le_max_left fuel₁ fuel₂) h₁
  have h₂ := eval_mono (Nat.le_max_right fuel₁ fuel₂) h₂
  rw [h₁] at h₂
  cases h₂
  exact ⟨rfl, rfl⟩

end

/-- Evaluating a node ends, given enough steps, with a result and leaves a machine. -/
def Evaluates (n : Node) (m : Machine) (r : Except Fault Value) (m' : Machine) : Prop :=
  ∃ fuel, eval fuel n m = .done r m'

theorem Evaluates.unique {n : Node} {m m₁ m₂ : Machine} {r s : Except Fault Value}
    (h₁ : Evaluates n m r m₁) (h₂ : Evaluates n m s m₂) : r = s ∧ m₁ = m₂ := by
  obtain ⟨_, h₁⟩ := h₁
  obtain ⟨_, h₂⟩ := h₂
  exact eval_unique h₁ h₂

/-! ### Reading -/

namespace Interpreter

variable {limits : Limits} {source : String}

/-- A source that can be scanned is read as the program of its tokens, and only events are
recorded. -/
theorem read_ok {ts : List Token} (h : tokenize limits.tokenizerReads source = .ok ts)
    (m : Machine) :
    ∃ m', m.Alike m' ∧
      read limits source m = .done (.ok (.ofTokens (effectiveCap limits.parserReads) ts)) m' := by
  unfold tokenize at h
  unfold read
  simp only [h]
  cases (scan (effectiveCap limits.tokenizerReads) source.toList).truncated <;>
    cases Node.isCut (effectiveCap limits.parserReads) ts <;>
    refine ⟨_, ?_, rfl⟩ <;>
    exact ⟨by simp, by simp, by simp⟩

theorem read_error {e : SyntaxError} (h : tokenize limits.tokenizerReads source = .error e)
    (m : Machine) : read limits source m = .done (.error (.unreadable e)) m := by
  unfold tokenize at h
  unfold read
  simp only [h]
  rfl

end Interpreter

end Lisplet
