import Lisplet.Proofs.LooseEquality
import Lisplet.Proofs.Provenance

/-!
# The identity of functions

Functions are told apart by identity, and each one that is made gets an identity of its own. All
moments of a run, through all its inputs, are written down, the latest one first: whatever function
turns up anywhere was made at one of the earlier moments, no two of which made functions with the
same identity. Binding, passing on and returning a function does not change it. Strict equality
then tells functions apart by the moments at which they were made.

* `Chronicle`: the moments of a run, and `Met`: the values that turned up;
* `Accounted`: the invariant, kept by the step that makes a function (`Accounted.make`) and by one
  that makes none (`Accounted.pass`), and so by a run (`Chronicle.accounted`);
* `Place`, `Moment.copies`: what is copied from where to where in a step;
* `functions_fresh_and_stable`: a new function is equal to none before, and a copy to its original.
-/

namespace Lisplet

open StateTransition

/-! ### Strict equality -/

namespace Value

/-- Whether a value is the number NaN. -/
def isNaN : Value → Bool
  | .number x => x.isNaN
  | _ => false

theorem strictEq_trans {a b c : Value} (hab : a.strictEq b = true) (hbc : b.strictEq c = true) :
    a.strictEq c = true := by
  cases a <;> cases b <;> simp only [strictEq, Bool.false_eq_true] at hab <;>
    cases c <;> simp only [strictEq, Bool.false_eq_true] at hbc ⊢
  all_goals exact BEq.trans hab hbc

/-- Callables are loosely equal only if they are strictly equal. -/
theorem looseEq_of_isCallable {a b : Value} (ha : a.isCallable = true) (hb : b.isCallable = true) :
    a.looseEq b = a.strictEq b := by
  rw [looseEq_eq_coercedEq, coercedEq]
  cases a <;> simp only [isCallable, Bool.false_eq_true] at ha
  all_goals cases b <;> simp only [isCallable, Bool.false_eq_true] at hb
  all_goals rfl

end Value

/-! ### Chronicles -/

/-- The moments of a run on a machine, the latest one first: inputs one after the other, the next
one being read when nothing is left to do. -/
inductive Chronicle (m₀ : Machine) : List Moment → Prop
  | start (i : Input) : Chronicle m₀ [⟨.source i, [], m₀⟩]
  | step {s s' : Moment} {past : List Moment} :
      Chronicle m₀ (s :: past) → s.next = some s' → Chronicle m₀ (s' :: s :: past)
  | input {r : Except Fault Value} {m : Machine} {past : List Moment} (i : Input) :
      Chronicle m₀ (⟨.result r, [], m⟩ :: past) →
      Chronicle m₀ (⟨.source i, [], m⟩ :: ⟨.result r, [], m⟩ :: past)

/-- The value turned up at one of the moments. -/
def Met (moments : List Moment) (v : Value) : Prop := ∃ s ∈ moments, v ∈ s.values

/-- A run goes on with the moments to come. -/
theorem Chronicle.of_reaches {m₀ : Machine} {s s' : Moment} {past : List Moment}
    (h : Chronicle m₀ (s :: past)) (hs : Reaches Moment.next s s') :
    ∃ later, Chronicle m₀ (s' :: later) ∧ s :: past <:+ s' :: later := by
  induction hs with
  | refl => exact ⟨past, h, List.suffix_refl _⟩
  | tail _ hnext ih =>
    obtain ⟨later, hlater, hsuffix⟩ := ih
    exact ⟨_, hlater.step hnext, hsuffix.trans (List.suffix_cons _ _)⟩

/-! ### Every function was made -/

/-- A value of the language, which was made at one of the moments if it is a function. -/
def Value.From (moments : List Moment) : Value → Prop
  | .undefined => True
  | .number _ => True
  | .string _ => True
  | .bool _ => True
  | .function f => ∃ s ∈ moments, s.Makes f
  | .builtin _ => True
  | .foreign _ => False
  | .absent => False

section

variable {moments : List Moment} {v : Value} {f g : Function} {s s' : Moment} {past : List Moment}

theorem Value.from_of_isScalar (hv : v.isScalar = true) : v.From moments := by
  cases v <;> trivial

theorem Value.From.cons (hv : v.From moments) (s : Moment) : v.From (s :: moments) := by
  cases v with
  | function f =>
    obtain ⟨t, ht, hf⟩ := hv
    exact ⟨t, List.mem_cons_of_mem _ ht, hf⟩
  | _ => exact hv

theorem Value.From.strictEq_self (hv : v.From moments) (hnan : v.isNaN = false) :
    v.strictEq v = true := by
  cases v with
  | number x =>
    have hx : x ≠ Float.nan := by
      simpa [isNaN, Float.isNaN_eq_decide_eq_nan] using hnan
    exact Float.beq_self_iff.2 hx
  | foreign _ => exact hv.elim
  | absent => exact hv.elim
  | _ => simp [strictEq]

theorem Moment.Makes.unique (hf : s.Makes f) (hg : s.Makes g) : f = g := by
  have hnext := hf.next_eq.2.symm.trans hg.next_eq.2
  cases hnext
  rfl

/-- The functions that turned up so far were made before, under identities that are not given out
again, and no two moments made functions with the same one. -/
structure Accounted (s : Moment) (past : List Moment) : Prop where
  origin : ∀ v, Met (s :: past) v → v.From past
  id_lt : ∀ t ∈ past, ∀ f, t.Makes f → f.id < s.machine.nextId
  eq_of_id : ∀ t ∈ past, ∀ u ∈ past, ∀ f g, t.Makes f → u.Makes g → f.id = g.id → t = u

namespace Accounted

variable (h : Accounted s past)

include h

/-- A step that makes a function. -/
theorem make (hf : s.Makes f) :
    Accounted ⟨.result (.ok (.function f)), s.tasks,
      { s.machine with nextId := s.machine.nextId + 1 }⟩ (s :: past) := by
  refine ⟨?_, ?_, ?_⟩
  · rintro v ⟨t, ht, hv⟩
    rcases List.mem_cons.1 ht with rfl | ht
    · -- Besides the function, there is nothing that was not there before.
      rcases Moment.mem_values.1 hv with hv | hv
      · cases List.mem_singleton.1 hv
        exact ⟨s, List.mem_cons_self, hf⟩
      · have hv : v ∈ s.values := Moment.mem_values.2 (.inr hv)
        exact (h.origin v ⟨s, List.mem_cons_self, hv⟩).cons s
    · exact (h.origin v ⟨t, ht, hv⟩).cons s
  · intro t ht g hg
    show g.id < s.machine.nextId + 1
    rcases List.mem_cons.1 ht with rfl | ht
    · rw [hg.next_eq.1]
      omega
    · have hlt := h.id_lt t ht g hg
      omega
  · -- The identity is one that no moment before has given out.
    intro t ht u hu g k hg hk hids
    rcases List.mem_cons.1 ht with rfl | htpast <;> rcases List.mem_cons.1 hu with rfl | hupast
    · rfl
    · have hid := hg.next_eq.1
      have hlt := h.id_lt u hupast k hk
      omega
    · have hid := hk.next_eq.1
      have hlt := h.id_lt t htpast g hg
      omega
    · exact h.eq_of_id t htpast u hupast g k hg hk hids

/-- A step that makes no function. -/
theorem pass (hnone : ∀ f, ¬ s.Makes f) (hid : s'.machine.nextId = s.machine.nextId)
    (hvalues : ∀ v ∈ s'.values, v ∈ s.values ∨ v.isScalar = true) : Accounted s' (s :: past) := by
  have hpast : ∀ t ∈ s :: past, ∀ f, t.Makes f → t ∈ past := by
    intro t ht f hf
    rcases List.mem_cons.1 ht with rfl | ht
    · exact (hnone f hf).elim
    · exact ht
  refine ⟨?_, ?_, ?_⟩
  · rintro v ⟨t, ht, hv⟩
    rcases List.mem_cons.1 ht with rfl | ht
    · rcases hvalues v hv with hv | hv
      · exact (h.origin v ⟨s, List.mem_cons_self, hv⟩).cons s
      · exact Value.from_of_isScalar hv
    · exact (h.origin v ⟨t, ht, hv⟩).cons s
  · intro t ht f hf
    rw [hid]
    exact h.id_lt t (hpast t ht f hf) f hf
  · intro t ht u hu f g hf hg hids
    exact h.eq_of_id t (hpast t ht f hf) u (hpast u hu g hg) f g hf hg hids

theorem next (hnext : s.next = some s') : Accounted s' (s :: past) := by
  rcases Moment.next_cases hnext with ⟨f, hf, rfl⟩ | ⟨hnone, hid, hvalues⟩
  · exact h.make hf
  · exact h.pass hnone hid hvalues

/-- A new function is not equal to any callable there was. -/
theorem strictEq_of_makes (hf : s.Makes f) (hv : Met (s :: past) v) (hc : v.isCallable = true) :
    (Value.function f).strictEq v = false := by
  cases v with
  | function g =>
    obtain ⟨t, ht, hg⟩ := h.origin _ hv
    have hlt := h.id_lt t ht g hg
    have hid := hf.next_eq.1
    show (f.id == g.id) = false
    simp only [beq_eq_false_iff_ne]
    omega
  | builtin b => rfl
  | _ => cases hc

theorem existsUnique_makes (hf : Met (s :: past) (.function f)) :
    ∃! t, t ∈ past ∧ t.Makes f := by
  obtain ⟨t, ht, hmakes⟩ := h.origin _ hf
  refine ⟨t, ⟨ht, hmakes⟩, ?_⟩
  rintro u ⟨hu, hmakes'⟩
  exact h.eq_of_id u hu t ht f f hmakes' hmakes rfl

theorem strictEq_iff (hf : Met (s :: past) (.function f)) (hg : Met (s :: past) (.function g)) :
    (Value.function f).strictEq (.function g) = true ↔ f = g := by
  constructor
  · intro hfg
    obtain ⟨t, ht, hmakes⟩ := h.origin _ hf
    obtain ⟨u, hu, hmakes'⟩ := h.origin _ hg
    have hids : f.id = g.id := beq_iff_eq.1 hfg
    obtain rfl := h.eq_of_id t ht u hu f g hmakes hmakes' hids
    exact hmakes.unique hmakes'
  · rintro rfl
    exact beq_self_eq_true f.id

/-- Strict equality of the values that turned up, apart from NaN. -/
theorem equivalence :
    Equivalence fun v w : { v : Value // Met (s :: past) v ∧ v.isNaN = false } =>
      v.val.strictEq w.val = true where
  refl := by
    rintro ⟨v, hv, hnan⟩
    exact (h.origin v hv).strictEq_self hnan
  symm {v w} hvw := by rwa [Value.strictEq_comm]
  trans huv hvw := Value.strictEq_trans huv hvw

end Accounted

theorem Machine.values_of_standard {m : Machine}
    (h : m.env = .standard ∨ m.env = Environment.standard.push) :
    m.values = Builtin.all.map .builtin := by
  rcases h with h | h <;>
    simp [values, h, Environment.push, Environment.frames, Environment.standard]

/-- The builtins are accounted for, and so is whatever a run comes to that starts with them. -/
theorem Chronicle.accounted {m₀ : Machine}
    (h₀ : m₀.env = .standard ∨ m₀.env = Environment.standard.push)
    (h : Chronicle m₀ (s :: past)) : Accounted s past := by
  generalize hmoments : s :: past = moments at h
  induction h generalizing s past with
  | start i =>
    cases hmoments
    refine ⟨?_, fun _ ht => (nomatch ht), fun _ ht => (nomatch ht)⟩
    rintro v ⟨t, ht, hv⟩
    cases List.mem_singleton.1 ht
    have hv : v ∈ m₀.values := hv
    rw [Machine.values_of_standard h₀] at hv
    obtain ⟨b, -, rfl⟩ := List.mem_map.1 hv
    trivial
  | step _ hnext ih =>
    cases hmoments
    exact (ih rfl).next hnext
  | input i _ ih =>
    cases hmoments
    refine (ih rfl).pass ?_ rfl fun v hv => .inl ?_
    · rintro f ⟨⟨n, hfocus, -⟩, -⟩
      cases hfocus
    · exact List.mem_append_right _ hv

end

/-! ### Copies -/

/-- Where a value can be at a moment. -/
inductive Place where
  | hand
  /-- What a name is bound to. -/
  | name (x : String)
  /-- An argument of the call that is taken up or prepared. -/
  | argument (position : Nat)
  /-- The value of the last round of a loop. -/
  | last

/-- Whether a builtin adds, subtracts, multiplies or divides. -/
def Builtin.isArithmetic : Builtin → Bool
  | .add => true
  | .subtract => true
  | .multiply => true
  | .divide => true
  | _ => false

/-- The arguments of a call stay where they are. -/
def Place.unmoved (args : List Value) : List (Place × Place) :=
  (List.range args.length).map fun k => (.argument k, .argument k)

/-- The places between which a value is copied when a value is handed on to a task. -/
def Task.copies (v : Value) (m : Machine) : Task → List (Place × Place)
  | .operands _ args (_ :: _) => (.hand, .argument args.length) :: Place.unmoved args
  | .operands (.function _) args [] => (.hand, .argument args.length) :: Place.unmoved args
  | .operands (.builtin b) [] [] => if b.isArithmetic then [(.hand, .hand)] else []
  | .following [] => [(.hand, .hand)]
  | .assign x => if (m.env.lookup x).isSome then [(.hand, .name x), (.hand, .hand)] else []
  | .define x => [(.hand, .name x), (.hand, .hand)]
  | .bindPair x _ _ => [(.hand, .name x)]
  | .test _ _ => if v.isTrue then [] else [(.last, .hand)]
  | .advance _ => [(.hand, .last)]
  | .again _ _ => [(.last, .last)]
  | .release _ => [(.hand, .hand)]
  | _ => []

theorem Environment.exists_assign {e : Environment} {x : String} {v : Value}
    (h : (e.lookup x).isSome = true) :
    ∃ e', e.assign x v = some e' ∧ e'.lookup x = some v := by
  have hframes := e.frames_assign x v
  cases he : e.assign x v with
  | none =>
    rw [he] at hframes
    have hnone : e.lookup x = none := assignIn_eq_none_iff.1 hframes.symm
    rw [hnone] at h
    cases h
  | some e' =>
    rw [he] at hframes
    refine ⟨e', rfl, ?_⟩
    rw [lookup, lookupIn_assignIn hframes.symm, if_pos rfl]

theorem Machine.lookup_define (x : String) (v : Value) (m : Machine) :
    (m.define x v).env.lookup x = some v := by
  show Environment.lookupIn x (m.env.inner.set x v :: m.env.outer) = some v
  rw [Environment.lookupIn_set_cons, if_pos rfl]

namespace Moment

/-- The value at a place, if there is one. -/
def at? : Moment → Place → Option Value
  | ⟨.result (.ok v), _, _⟩, .hand => some v
  | ⟨_, _, m⟩, .name x => m.env.lookup x
  | ⟨.params args _ _ _, _, _⟩, .argument k => args[k]?
  | ⟨_, .operands _ args _ :: _, _⟩, .argument k => args[k]?
  | ⟨_, .test _ v :: _, _⟩, .last => some v
  | ⟨_, .again _ v :: _, _⟩, .last => some v
  | _, _ => none

/-- The places between which a value is copied in the next step. -/
def copies : Moment → List (Place × Place)
  | ⟨.node (.atom ⟨.symbol, x⟩), _, _⟩ => [(.name x, .hand)]
  | ⟨.params args position (x :: _) _, _, _⟩ =>
    (.argument position, .name x) :: Place.unmoved args
  | ⟨.result (.ok v), t :: _, m⟩ => t.copies v m
  | _ => []

variable {p q : Place} {f : Function} {K : List Task} {m : Machine}

/-- An argument that is passed on is found among the arguments afterwards, as those before are. -/
theorem getElem?_passed {g v w : Value} {args : List Value} {rest : List Node}
    (h : (p, q) ∈ (Place.hand, Place.argument args.length) :: Place.unmoved args)
    (hp : at? ⟨.result (.ok v), .operands g args rest :: K, m⟩ p = some w) :
    ∃ k, q = .argument k ∧ (args ++ [v])[k]? = some w := by
  rcases List.mem_cons.1 h with h | h
  · cases h
    cases hp
    exact ⟨args.length, rfl, by simp⟩
  · obtain ⟨k, hk, hpq⟩ := List.mem_map.1 h
    cases hpq
    refine ⟨k, rfl, ?_⟩
    rw [List.getElem?_append_left (List.mem_range.1 hk)]
    exact hp

theorem copies_ofValue {v : Value} {t : Task} (h : (p, q) ∈ t.copies v m)
    (hp : at? ⟨.result (.ok v), t :: K, m⟩ p = some (.function f)) :
    ∃ s', ofValue v t K m = some s' ∧ s'.at? q = some (.function f) := by
  unfold Task.copies at h
  split at h
  · -- an argument before the last one
    obtain ⟨k, rfl, hk⟩ := getElem?_passed h hp
    exact ⟨_, rfl, hk⟩
  · -- the last argument of a call
    obtain ⟨k, rfl, hk⟩ := getElem?_passed h hp
    exact ⟨_, rfl, hk⟩
  · -- the argument of an arithmetic builtin
    rename_i b
    by_cases hb : b.isArithmetic = true
    · rw [if_pos hb] at h
      cases List.mem_singleton.1 h
      cases hp
      cases b <;> simp only [Builtin.isArithmetic, Bool.false_eq_true] at hb
      all_goals exact ⟨_, rfl, rfl⟩
    · rw [if_neg hb] at h
      cases h
  · -- the value of a sequence
    cases List.mem_singleton.1 h
    exact ⟨_, rfl, hp⟩
  · -- =
    rename_i x
    by_cases hx : (m.env.lookup x).isSome = true
    · obtain ⟨env, henv, hlookup⟩ := Environment.exists_assign (v := v) hx
      have hnext : ofValue v (.assign x) K m = some ⟨.result (.ok v), K, { m with env }⟩ := by
        simp only [ofValue, henv]
      rw [if_pos hx] at h
      rcases List.mem_pair.1 h with h | h
      · cases h
        cases hp
        exact ⟨_, hnext, hlookup⟩
      · cases h
        exact ⟨_, hnext, hp⟩
    · rw [if_neg hx] at h
      cases h
  · -- let
    rcases List.mem_pair.1 h with h | h
    · cases h
      cases hp
      exact ⟨_, rfl, Machine.lookup_define ..⟩
    · cases h
      exact ⟨_, rfl, hp⟩
  · -- for
    cases List.mem_singleton.1 h
    cases hp
    exact ⟨_, rfl, Machine.lookup_define ..⟩
  · -- the value of a loop
    by_cases hv : v.isTrue = true
    · rw [if_pos hv] at h
      cases h
    · rw [if_neg hv] at h
      cases List.mem_singleton.1 h
      exact ⟨_, if_neg hv, hp⟩
  · -- the value of a round
    cases List.mem_singleton.1 h
    exact ⟨_, rfl, hp⟩
  · -- the value of a round, while the next one starts
    cases List.mem_singleton.1 h
    exact ⟨_, rfl, hp⟩
  · -- a value that leaves a frame
    cases List.mem_singleton.1 h
    exact ⟨_, rfl, hp⟩
  · cases h

/-- What is copied is there afterwards, and it is the same function. -/
theorem copies_next {s : Moment} (h : (p, q) ∈ s.copies) (hp : s.at? p = some (.function f)) :
    ∃ s', s.next = some s' ∧ s'.at? q = some (.function f) := by
  unfold copies at h
  split at h
  · -- a variable
    rename_i x K m
    cases List.mem_singleton.1 h
    have hx : m.env.lookup x = some (.function f) := hp
    refine ⟨⟨.result (.ok (.function f)), K, m⟩, ?_, rfl⟩
    show after (Eval.symbol x) K m = _
    simp only [after, Eval.symbol, hx]
  · -- a parameter
    rename_i args position x names body K m
    rcases List.mem_cons.1 h with h | h
    · cases h
      refine ⟨_, rfl, (Machine.lookup_define ..).trans ?_⟩
      have harg : args[position]? = some (.function f) := hp
      simp only [Value.argument, harg, Value.orUndefined]
    · obtain ⟨k, -, hpq⟩ := List.mem_map.1 h
      cases hpq
      exact ⟨_, rfl, hp⟩
  · exact copies_ofValue h hp
  · cases h

end Moment

/-! ### Functions in a run -/

theorem Builtin.compare_callables (r : Value → Value → Bool) {a b : Value}
    (ha : a.isCallable = true) (hb : b.isCallable = true) : compare r [a, b] = .bool (r a b) := by
  have hargument : ∀ v : Value, v.isCallable = true → v.orUndefined = v := by
    intro v hv
    cases v with
    | absent => cases hv
    | _ => rfl
  show Value.bool (r a.orUndefined b.orUndefined) = .bool (r a b)
  rw [hargument a ha, hargument b hb]

/-- **Functions are fresh when they are made, and stable from then on.** Inputs are evaluated one
after the other, under any limits and whether they fail or not, on a machine that starts with the
builtins; `past` are the moments so far, and `s` is the present one. If a function form is taken up,
it makes a function that is neither strictly nor loosely equal to any callable that turned up so
far, be it in a frame, as a result or anywhere else. A function that a step binds, passes on or
returns is strictly equal to its copy. Each function that turned up was made at exactly one moment,
and two of them are strictly equal only if they are the same; so strict equality is an equivalence
on all values that turned up, apart from NaN. When an input ends, its moments are among those so
far. -/
theorem functions_fresh_and_stable {m₀ : Machine} {s : Moment} {past : List Moment}
    (h₀ : m₀.env = .standard ∨ m₀.env = Environment.standard.push)
    (h : Chronicle m₀ (s :: past)) :
    (∀ n params body, s.focus = .node n → n.IsFunction params body →
      ∃ f : Function, s.Makes f ∧ f.params = params ∧ f.body = body ∧
        ∀ v, Met (s :: past) v → v.isCallable = true →
          Builtin.strictEqual.apply [.function f, v] = .bool false ∧
          Builtin.looseEqual.apply [.function f, v] = .bool false) ∧
    (∀ p q f, (p, q) ∈ s.copies → s.at? p = some (.function f) →
      ∃ s' w, s.next = some s' ∧ s'.at? q = some w ∧
        Builtin.strictEqual.apply [.function f, w] = .bool true) ∧
    (∀ f, Met (s :: past) (.function f) → ∃! t, t ∈ past ∧ t.Makes f) ∧
    (∀ f g, Met (s :: past) (.function f) → Met (s :: past) (.function g) →
      (Builtin.strictEqual.apply [.function f, .function g] = .bool true ↔ f = g)) ∧
    (Equivalence fun v w : { v : Value // Met (s :: past) v ∧ v.isNaN = false } =>
      v.val.strictEq w.val = true) ∧
    ∀ i m fuel r m', s = ⟨.source i, [], m⟩ → i.evaluate fuel m = .done r m' →
      ∃ later, Chronicle m₀ (⟨.result r, [], m'⟩ :: later) ∧ s :: past <:+ later := by
  have haccounted := h.accounted h₀
  refine ⟨?_, ?_, fun f => haccounted.existsUnique_makes, ?_, haccounted.equivalence, ?_⟩
  · intro n params body hs hn
    have hmakes := Moment.makes_of_isFunction hs hn
    refine ⟨_, hmakes, rfl, rfl, fun v hv hc => ?_⟩
    have hstrict := haccounted.strictEq_of_makes hmakes hv hc
    constructor
    · rw [Builtin.apply, Builtin.compare_callables _ rfl hc, hstrict]
    · rw [Builtin.apply, Builtin.compare_callables _ rfl hc, Value.looseEq_of_isCallable rfl hc,
        hstrict]
  · intro p q f hpq hp
    obtain ⟨s', hnext, hq⟩ := Moment.copies_next hpq hp
    refine ⟨s', _, hnext, hq, ?_⟩
    rw [Builtin.apply, Builtin.compare_callables _ rfl rfl, Value.strictEq, beq_self_eq_true]
  · intro f g hf hg
    rw [Builtin.apply, Builtin.compare_callables _ rfl rfl, Value.bool.injEq,
      haccounted.strictEq_iff hf hg]
  · rintro i m fuel r m' rfl he
    obtain ⟨later, hlater, hsuffix⟩ := h.of_reaches (Input.ends_iff.1 ⟨fuel, he⟩)
    rcases List.suffix_cons_iff.1 hsuffix with hsame | hsuffix
    · cases hsame
    · exact ⟨later, hlater, hsuffix⟩

/-- A form that makes a function which returns its argument. -/
def returnerForm : Node := .branch [.sym "fn", .branch [.sym "x"], .sym "x"]

/-- The first function that the form makes. -/
def firstReturner : Function := ⟨0, ["x"], .sym "x"⟩

/-- The builtins, and `f`, which is that function. -/
def afterFirst : Machine :=
  { env := Environment.standard.define "f" (.function firstReturner), nextId := 1 }

/-- A loop that binds `f` anew in each step, as long as `f` is equal to itself. -/
def rebinding : Loop where
  cond := .branch [.sym "===", .sym "f", .sym "f"]
  step := .branch [.sym "=", .sym "f", returnerForm]
  body := .sym "f"

/-- The loop is at the form for the first time. -/
def atRebinding : Moment where
  focus := .node returnerForm
  tasks := [.assign "f", .again rebinding (.function firstReturner), .release 2, .following [],
    .release 1]
  machine := afterFirst.push.push

/-- The first input makes a function, and the second one comes to the same form in a loop. What is
made then is another function, and `f` is bound to it next. -/
theorem functions_fresh_and_stable_in_loop :
    ∃ past f s s' w, Chronicle {} (atRebinding :: past) ∧ atRebinding.Makes f ∧
      Met (atRebinding :: past) (.function firstReturner) ∧
      Builtin.strictEqual.apply [.function f, .function firstReturner] = .bool false ∧
      Builtin.looseEqual.apply [.function f, .function firstReturner] = .bool false ∧
      atRebinding.next = some s ∧ (.hand, .name "f") ∈ s.copies ∧ s.next = some s' ∧
      s'.at? (.name "f") = some w ∧ Builtin.strictEqual.apply [.function f, w] = .bool true := by
  have hlet : Interpreter.read (.both 30) "(let f (fn (x) x))" {} =
    .done (.ok (.program [.branch [.sym "let", .sym "f", returnerForm]])) {} := rfl
  have hfor : Interpreter.read (.both 60) "(for (() (=== f f) (= f (fn (x) x))) f)" afterFirst =
    .done (.ok (.program [.branch [.sym "for", .branch [.branch [], rebinding.cond,
      rebinding.step], rebinding.body]])) afterFirst := rfl
  have hfirst : Input.evaluate ⟨true, .both 30, "(let f (fn (x) x))"⟩ 4 {} =
    .done (.ok (.function firstReturner)) afterFirst := (Action.bind_of_ok hlet).trans rfl
  have hnext : Moment.next ⟨.source ⟨false, .both 60, "(for (() (=== f f) (= f (fn (x) x))) f)"⟩,
      [], afterFirst⟩ = some ⟨.node (.program [.branch [.sym "for", .branch [.branch [],
        rebinding.cond, rebinding.step], rebinding.body]]), [], afterFirst⟩ := by
    simp only [Moment.next, Moment.ofSource, hfor]
    rfl
  have hreach : Reaches Moment.next
      ⟨.source ⟨false, .both 60, "(for (() (=== f f) (= f (fn (x) x))) f)"⟩, [], afterFirst⟩
      atRebinding := by
    -- up to the condition
    refine .head hnext (.head rfl (.head rfl (.head rfl (.head rfl ?_))))
    -- the condition
    refine .head rfl (.head rfl (.head rfl (.head rfl (.head rfl (.head rfl (.head rfl ?_))))))
    -- the body, and the step up to the form
    exact .head rfl (.head rfl (.head rfl (.single rfl)))
  have hstart : Chronicle {} [⟨.source ⟨true, .both 30, "(let f (fn (x) x))"⟩, [], {}⟩] := .start _
  obtain ⟨-, -, -, -, -, hends⟩ := functions_fresh_and_stable (.inl rfl) hstart
  obtain ⟨later, hlater, -⟩ := hends _ _ _ _ _ rfl hfirst
  obtain ⟨past, hpast, -⟩ := (hlater.input _).of_reaches hreach
  have hvalues : .function firstReturner ∈ atRebinding.values := by
    simp [atRebinding, Moment.values, Focus.values, Task.values]
  have hmet : Met (atRebinding :: past) (.function firstReturner) :=
    ⟨_, List.mem_cons_self, hvalues⟩
  obtain ⟨hfresh, -⟩ := functions_fresh_and_stable (.inl rfl) hpast
  obtain ⟨f, hmakes, -, -, hnew⟩ := hfresh _ _ _ rfl ⟨_, rfl, rfl⟩
  obtain ⟨hstrict, hloose⟩ := hnew _ hmet rfl
  obtain ⟨-, hmade⟩ := hmakes.next_eq
  obtain ⟨-, hcopies, -⟩ := functions_fresh_and_stable (.inl rfl) (hpast.step hmade)
  obtain ⟨s', w, hbound, hw, hequal⟩ := hcopies .hand (.name "f") f List.mem_cons_self rfl
  exact ⟨past, f, _, s', w, hpast, hmakes, hmet, hstrict, hloose, hmade, List.mem_cons_self, hbound,
    hw, hequal⟩

end Lisplet
