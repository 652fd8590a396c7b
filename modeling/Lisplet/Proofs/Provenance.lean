import Lisplet.Proofs.Throughout

/-!
# Where values come from

At each moment of an evaluation there are values in hand, values kept for what is left to do, and
values in the frames. A step takes up a function form and makes a function, or it makes no function:
then each value it leaves was there before, or is a number, a text, a boolean or undefined.

* `Moment.values`: all values at a moment;
* `Moment.Makes`: a moment at which a function is made;
* `Moment.Holds`: a property of all values at a moment;
* `Action.Keeps`: an action that brings in no value without the property;
* `Moment.next_cases`: what a step can do.
-/

namespace Lisplet

/-! ### The values at a moment -/

/-- Whether a value is undefined, a number, a text or a boolean. -/
def Value.isScalar : Value → Bool
  | .undefined => true
  | .number _ => true
  | .string _ => true
  | .bool _ => true
  | _ => false

theorem Value.isScalar_add (v w : Value) : (v.add w).isScalar = true := by
  unfold add
  split <;> rfl

/-- The values in hand. -/
def Focus.values : Focus → List Value
  | .result (.ok v) => [v]
  | .params args _ _ _ => args
  | _ => []

/-- The values kept for a task. -/
def Task.values : Task → List Value
  | .operands f args _ => f :: args
  | .test _ last => [last]
  | .again _ last => [last]
  | _ => []

/-- The values in all frames. -/
def Machine.values (m : Machine) : List Value := m.env.frames.flatMap fun f => f.map Prod.snd

/-- All values at a moment. -/
def Moment.values (s : Moment) : List Value :=
  s.focus.values ++ s.tasks.flatMap Task.values ++ s.machine.values

theorem Moment.mem_values {s : Moment} {v : Value} :
    v ∈ s.values ↔
      v ∈ s.focus.values ∨ (∃ t ∈ s.tasks, v ∈ t.values) ∨ v ∈ s.machine.values := by
  simp [values]

theorem Machine.mem_values {m : Machine} {v : Value} :
    v ∈ m.values ↔ ∃ f ∈ m.env.frames, ∃ x, (x, v) ∈ f := by
  simp [values]

/-! ### Making a function -/

/-- The node is a function form with these parameters and this body. -/
def Node.IsFunction (n : Node) (params : List String) (body : Node) : Prop :=
  ∃ ns, n = .branch [.sym Form.function.name, .branch ns, body] ∧
    Eval.bindingNames .function ns = .ok params

namespace Moment

/-- A function form is taken up, and the function that it makes is in hand next. -/
def Makes (s : Moment) (f : Function) : Prop :=
  (∃ n, s.focus = .node n ∧ n.IsFunction f.params f.body) ∧
    ∃ s', s.next = some s' ∧ s'.focus = .result (.ok (.function f))

theorem next_of_isFunction {n body : Node} {params : List String} (h : n.IsFunction params body)
    (K : List Task) (m : Machine) :
    next ⟨.node n, K, m⟩ = some ⟨.result (.ok (.function ⟨m.nextId, params, body⟩)), K,
      { m with nextId := m.nextId + 1 }⟩ := by
  obtain ⟨ns, rfl, hnames⟩ := h
  have hform : Eval.form (fun _ => Action.exhaust) 0 .function [.branch ns, body] m =
      .done (.ok (.function ⟨m.nextId, params, body⟩)) { m with nextId := m.nextId + 1 } := by
    simp only [Eval.form, hnames]
    rfl
  show after (Eval.form (fun _ => Action.exhaust) 0 .function [.branch ns, body]) K m = _
  rw [after, hform]

theorem makes_of_isFunction {s : Moment} {n body : Node} {params : List String}
    (hs : s.focus = .node n) (hn : n.IsFunction params body) :
    s.Makes ⟨s.machine.nextId, params, body⟩ := by
  obtain ⟨focus, K, m⟩ := s
  cases hs
  exact ⟨⟨n, rfl, hn⟩, _, next_of_isFunction hn K m, rfl⟩

/-- The function that is made gets the next identity, and nothing else changes. -/
theorem Makes.next_eq {s : Moment} {f : Function} (h : s.Makes f) :
    f.id = s.machine.nextId ∧
      s.next = some ⟨.result (.ok (.function f)), s.tasks,
        { s.machine with nextId := s.machine.nextId + 1 }⟩ := by
  obtain ⟨focus, K, m⟩ := s
  obtain ⟨id, params, body⟩ := f
  obtain ⟨⟨n, hfocus, hn⟩, s', hnext, hs'⟩ := h
  cases hfocus
  rw [next_of_isFunction hn] at hnext
  cases hnext
  cases hs'
  exact ⟨rfl, next_of_isFunction hn K m⟩

end Moment

/-! ### A property of all values -/

variable {P : Value → Prop} {n : Nat} {m m' : Machine}

/-- The next function gets the identity `n`, and the frames bind only values with the property. -/
structure Machine.Holds (P : Value → Prop) (n : Nat) (m : Machine) : Prop where
  nextId : m.nextId = n
  values : ∀ v ∈ m.values, P v

/-- The next function gets the identity `n`, and all values have the property. -/
structure Moment.Holds (P : Value → Prop) (n : Nat) (s : Moment) : Prop where
  focus : ∀ v ∈ s.focus.values, P v
  tasks : ∀ t ∈ s.tasks, ∀ v ∈ t.values, P v
  machine : s.machine.Holds P n

theorem Moment.holds_iff {s : Moment} :
    s.Holds P n ↔ s.machine.nextId = n ∧ ∀ v ∈ s.values, P v := by
  constructor
  · rintro ⟨hfocus, htasks, hid, hframes⟩
    refine ⟨hid, fun v hv => ?_⟩
    rcases mem_values.1 hv with hv | ⟨t, ht, hv⟩ | hv
    · exact hfocus v hv
    · exact htasks t ht v hv
    · exact hframes v hv
  · rintro ⟨hid, h⟩
    refine ⟨fun v hv => ?_, fun t ht v hv => ?_, hid, fun v hv => ?_⟩
    · exact h v (mem_values.2 (.inl hv))
    · exact h v (mem_values.2 (.inr (.inl ⟨t, ht, hv⟩)))
    · exact h v (mem_values.2 (.inr (.inr hv)))

namespace Machine.Holds

theorem of_env (hm : m.Holds P n) (henv : m'.env = m.env) (hid : m'.nextId = m.nextId) :
    m'.Holds P n := by
  refine ⟨hid.trans hm.nextId, ?_⟩
  rw [Machine.values, henv]
  exact hm.values

theorem note (hm : m.Holds P n) (e : Event) : (m.note e).Holds P n :=
  hm.of_env (env_note _ _) (nextId_note _ _)

theorem print (hm : m.Holds P n) (line : String) : (m.print line).Holds P n := hm.of_env rfl rfl

theorem push (hm : m.Holds P n) : m.push.Holds P n := by
  refine ⟨(nextId_push m).trans hm.nextId, ?_⟩
  rw [Machine.values, env_push]
  exact hm.values

theorem release (hm : m.Holds P n) (d : Nat) : (m.release d).Holds P n := by
  refine ⟨(nextId_release d m).trans hm.nextId, fun v hv => ?_⟩
  obtain ⟨f, hf, hb⟩ := mem_values.1 hv
  rw [env_release] at hf
  exact hm.values v (mem_values.2 ⟨f, (Environment.frames_drop_suffix _ _).subset hf, hb⟩)

theorem define {v : Value} (hm : m.Holds P n) (x : String) (hv : P v) :
    (m.define x v).Holds P n := by
  refine ⟨hm.nextId, fun w hw => ?_⟩
  obtain ⟨f, hf, y, hb⟩ := mem_values.1 hw
  rcases List.mem_cons.1 hf with rfl | hf
  · rcases Frame.mem_set hb with hb | hb
    · cases hb
      exact hv
    · exact hm.values w (mem_values.2 ⟨_, List.mem_cons_self, y, hb⟩)
  · exact hm.values w (mem_values.2 ⟨f, List.mem_cons_of_mem _ hf, y, hb⟩)

theorem assign {v : Value} {x : String} {e : Environment} (hm : m.Holds P n) (hv : P v)
    (he : m.env.assign x v = some e) : Holds P n { m with env := e } := by
  have hframes : Environment.assignIn x v m.env.frames = some e.frames := by
    rw [← Environment.frames_assign, he, Option.map_some]
  refine ⟨hm.nextId, fun w hw => ?_⟩
  obtain ⟨g, hg, y, hb⟩ := mem_values.1 hw
  rcases Environment.mem_of_assignIn hframes hg hb with hb | ⟨f, hf, hb⟩
  · cases hb
    exact hv
  · exact hm.values w (mem_values.2 ⟨f, hf, y, hb⟩)

theorem lookup {v : Value} {x : String} (hm : m.Holds P n) (h : m.env.lookup x = some v) :
    P v := by
  obtain ⟨f, hf, hb⟩ := Environment.mem_of_lookupIn h
  exact hm.values v (mem_values.2 ⟨f, hf, x, hb⟩)

/-- Reading records events only. -/
theorem read {limits : Limits} {source : String} {r : Except Fault Node} (hm : m.Holds P n)
    (h : Interpreter.read limits source m = .done r m') : m'.Holds P n := by
  cases ht : tokenize limits.tokenizerReads source with
  | error e =>
    rw [Interpreter.read_error ht m] at h
    cases h
    exact hm
  | ok ts =>
    obtain ⟨m₁, halike, hread⟩ := Interpreter.read_ok ht m
    rw [hread] at h
    cases h
    exact hm.of_env halike.env.symm halike.nextId.symm

end Machine.Holds

/-! ### Actions that bring in no value -/

/-- The action keeps the property of all values in the frames, makes no function, and its value has
the property `Q`. -/
def Action.Keeps {α : Type} (P : Value → Prop) (n : Nat) (Q : α → Prop) (x : Action α) : Prop :=
  ∀ ⦃m r m'⦄, m.Holds P n → x m = .done r m' → m'.Holds P n ∧ ∀ a, r = .ok a → Q a

namespace Action.Keeps

variable {α β : Type} {Q : α → Prop} {R : β → Prop}

theorem pure {a : α} (ha : Q a) : Keeps P n Q (Pure.pure a : Action α) := by
  intro m r m' hm h
  cases h
  exact ⟨hm, fun _ h => Except.ok.inj h ▸ ha⟩

theorem fail (e : Fault) : Keeps P n Q (Action.fail e : Action α) := by
  intro m r m' hm h
  cases h
  exact ⟨hm, fun _ h => (nomatch h)⟩

theorem exhaust : Keeps P n Q (Action.exhaust : Action α) := fun _ _ _ _ h => (nomatch h)

theorem update {f : Machine → Machine} (hf : ∀ m, m.Holds P n → (f m).Holds P n) :
    Keeps P n (fun _ => True) (Action.update f) := by
  intro m r m' hm h
  cases h
  exact ⟨hf m hm, fun _ _ => trivial⟩

theorem bind {x : Action α} {f : α → Action β} (hx : x.Keeps P n Q)
    (hf : ∀ a, Q a → (f a).Keeps P n R) : (x >>= f).Keeps P n R := by
  intro m r m' hm h
  rcases Action.bind_eq_done h with ⟨e, hxm, rfl⟩ | ⟨a, m₁, hxm, hfm⟩
  · exact ⟨(hx hm hxm).1, fun _ h => (nomatch h)⟩
  · obtain ⟨hm₁, ha⟩ := hx hm hxm
    exact hf a (ha a rfl) hm₁ hfm

/-- What comes after an action that does not end is never done. -/
theorem exhaust_bind (f : α → Action β) : (Action.exhaust >>= f).Keeps P n R :=
  exhaust.bind (Q := fun _ => False) fun _ h => h.elim

theorem inFrame {x : Action α} (hx : x.Keeps P n Q) : (Action.inFrame x).Keeps P n Q := by
  intro m r m' hm h
  obtain ⟨m₁, hxm, rfl⟩ := Action.inFrame_eq_done h
  obtain ⟨hm₁, hr⟩ := hx hm.push hxm
  exact ⟨hm₁.release _, hr⟩

theorem ofExcept (r : Except Fault α) : (Eval.ofExcept r).Keeps P n fun a => r = .ok a := by
  cases r with
  | error e => exact fail e
  | ok a => exact pure rfl

theorem symbol (x : String) : (Eval.symbol x).Keeps P n P := by
  intro m r m' hm h
  unfold Eval.symbol at h
  split at h
  · rename_i v hv
    cases h
    exact ⟨hm, fun _ h => Except.ok.inj h ▸ hm.lookup hv⟩
  · cases h
    exact ⟨hm, fun _ h => (nomatch h)⟩

theorem loop (header body : Node) :
    (Eval.loop (fun _ => Action.exhaust) 0 header body).Keeps P n P := by
  unfold Eval.loop
  split
  · split
    · split
      · refine inFrame (bind (Q := fun _ => True) ?_ fun _ _ => exhaust)
        unfold Eval.bindPairs
        split
        · exact (ofExcept _).bind fun _ _ => exhaust_bind _
        · exact pure trivial
      · exact fail _
    · exact fail _
  · exact fail _

section

variable (hP : ∀ v : Value, v.isScalar = true → P v)

include hP

theorem atom (t : Token) : (Eval.atom t).Keeps P n P := by
  unfold Eval.atom
  split
  · exact symbol t.text
  · exact pure (hP _ rfl)
  · exact pure (hP _ rfl)
  · exact fail _
  · exact fail _

theorem bump (form : Form) {op : Value → Value → Value} (hop : ∀ v w, (op v w).isScalar = true)
    (node : Node) : (Eval.bump form op node).Keeps P n P := by
  refine (ofExcept _).bind fun x _ => (symbol x).bind fun v _ => ?_
  exact (update fun m hm => hm.define x (hP _ (hop v _))).bind fun _ _ => pure (hP _ rfl)

/-- A builtin returns one of its arguments or a scalar. -/
theorem builtin (b : Builtin) {args : List Value} (hargs : ∀ v ∈ args, P v)
    (rec : Node → Action Value) : (Eval.call rec (.builtin b) args).Keeps P n P := by
  have happly : P (b.apply args) :=
    b.apply_induction (hP _ rfl) (fun _ => hP _ rfl) (fun _ => hP _ rfl) (fun _ => hP _ rfl) hargs
  have hnote : Keeps P n (fun _ => True)
      (Action.update (·.note (.calledBuiltin b.name args.length))) :=
    update fun m hm => hm.note _
  by_cases hb : b = .print
  · simp only [Eval.call, if_pos hb]
    exact hnote.bind fun _ _ => (update fun m hm => hm.print _).bind fun _ _ => pure happly
  · simp only [Eval.call, if_neg hb]
    exact hnote.bind fun _ _ => pure happly

theorem sequence (ns : List Node) :
    (Eval.sequence (fun _ => Action.exhaust) .undefined ns).Keeps P n P := by
  cases ns with
  | nil => exact pure (hP _ rfl)
  | cons _ _ => exact exhaust_bind _

/-- Without the nodes that it evaluates, a form other than a function form does no more than look up
a name or bind one. -/
theorem form {f : Form} {parts : List Node}
    (hf : ∀ params body, ¬ (Node.branch (.sym f.name :: parts)).IsFunction params body) :
    (Eval.form (fun _ => Action.exhaust) 0 f parts).Keeps P n P := by
  unfold Eval.form
  split
  · -- progn
    exact (sequence hP _).inFrame
  · -- fn
    split
    · rename_i body _ ns
      exact (ofExcept _).bind fun params hparams => (hf params body ⟨ns, rfl, hparams⟩).elim
    · exact fail _
  · exact exhaust_bind _
  · exact exhaust_bind _
  · exact bump hP _ Value.isScalar_add _
  · exact bump hP _ (fun _ _ => rfl) _
  · exact (ofExcept _).bind fun _ _ => exhaust_bind _
  · -- let, without a value
    refine (ofExcept _).bind fun x _ => ?_
    exact (update fun m hm => hm.define x (hP _ rfl)).bind fun _ _ => pure (hP _ rfl)
  · exact (ofExcept _).bind fun _ _ => exhaust_bind _
  · exact loop _ _
  · exact fail _

end

end Action.Keeps

/-! ### A step that makes no function -/

namespace Moment

variable {K : List Task} {s s' : Moment} (hP : ∀ v : Value, v.isScalar = true → P v)
  (hm : m.Holds P n) (hK : ∀ t ∈ K, ∀ v ∈ t.values, P v)

include hm hK

theorem holds_value {v : Value} (hv : P v) : Holds P n ⟨.result (.ok v), K, m⟩ :=
  ⟨List.forall_mem_singleton.2 hv, hK, hm⟩

theorem holds_fault (e : Fault) : Holds P n ⟨.result (.error e), K, m⟩ :=
  ⟨fun _ hv => (nomatch hv), hK, hm⟩

/-- A node is taken up, and a task is left to do. -/
theorem holds_node (node : Node) {t : Task} (ht : ∀ v ∈ t.values, P v) :
    Holds P n ⟨.node node, t :: K, m⟩ :=
  ⟨fun _ hv => (nomatch hv), List.forall_mem_cons.2 ⟨ht, hK⟩, hm⟩

theorem holds_inFrame (node : Node) : (inFrame node K m).Holds P n :=
  holds_node hm.push hK node fun _ hv => (nomatch hv)

theorem holds_ofName {name : Except Fault String} (node : Node) {task : String → Task}
    (htask : ∀ x, ∀ v ∈ (task x).values, P v) : (ofName name node task K m).Holds P n := by
  cases name with
  | error e => exact holds_fault hm hK e
  | ok x => exact holds_node hm hK node (htask x)

theorem holds_after {x : Action Value} (hx : x.Keeps P n P) (hs : after x K m = some s) :
    s.Holds P n := by
  unfold after at hs
  cases hxm : x m with
  | exhausted =>
    rw [hxm] at hs
    cases hs
  | done r m' =>
    rw [hxm] at hs
    cases hs
    obtain ⟨hm', hr⟩ := hx hm hxm
    cases r with
    | error e => exact holds_fault hm' hK e
    | ok v => exact holds_value hm' hK (hr v rfl)

include hP

theorem holds_ofCall {f : Value} {args : List Value} (hargs : ∀ v ∈ args, P v)
    (hs : ofCall f args K m = some s) : s.Holds P n := by
  cases f with
  | function f =>
    cases hs
    exact ⟨hargs, List.forall_mem_cons.2 ⟨fun _ hv => (nomatch hv), hK⟩, (hm.note _).push⟩
  | builtin b => exact holds_after hm hK (Action.Keeps.builtin hP b hargs _) hs
  | _ => exact holds_after hm hK (Action.Keeps.fail _) hs

theorem holds_ofOperands {f : Value} {args : List Value} {rest : List Node} (hf : P f)
    (hargs : ∀ v ∈ args, P v) (hs : ofOperands f args rest K m = some s) : s.Holds P n := by
  cases rest with
  | nil => exact holds_ofCall hP hm hK hargs hs
  | cons node rest =>
    cases hs
    exact holds_node hm hK node (List.forall_mem_cons.2 ⟨hf, hargs⟩)

theorem holds_ofForm {f : Form} {parts : List Node}
    (hf : ∀ params body, ¬ (Node.branch (.sym f.name :: parts)).IsFunction params body)
    (hs : ofForm f parts K m = some s) : s.Holds P n := by
  unfold ofForm at hs
  split at hs
  · -- progn
    cases hs
    refine holds_value hm.push ?_ (hP _ rfl)
    exact List.forall_mem_cons.2 ⟨fun _ hv => (nomatch hv),
      List.forall_mem_cons.2 ⟨fun _ hv => (nomatch hv), hK⟩⟩
  · -- if, without an else
    cases hs
    exact holds_node hm hK _ fun _ hv => (nomatch hv)
  · -- if
    cases hs
    exact holds_node hm hK _ fun _ hv => (nomatch hv)
  · -- =
    cases hs
    exact holds_ofName hm hK _ fun _ _ hv => (nomatch hv)
  · -- let
    cases hs
    exact holds_ofName hm hK _ fun _ _ hv => (nomatch hv)
  · -- for
    split at hs
    · cases hs
      exact ⟨fun _ hv => (nomatch hv), List.forall_mem_cons.2 ⟨fun _ hv => (nomatch hv), hK⟩,
        hm.push⟩
    · cases hs
      exact holds_fault hm hK _
  · exact holds_after hm hK (Action.Keeps.form hP hf) hs

theorem holds_ofNode {node : Node} (hnode : ∀ params body, ¬ node.IsFunction params body)
    (hs : ofNode node K m = some s) : s.Holds P n := by
  cases node with
  | hole e => exact holds_after hm hK (Action.Keeps.fail _) hs
  | atom t => exact holds_after hm hK (Action.Keeps.atom hP t) hs
  | branch ns =>
    cases ns with
    | nil => exact holds_after hm hK (Action.Keeps.fail _) hs
    | cons head parts =>
      unfold ofNode at hs
      simp only at hs
      split at hs
      · rename_i f hf
        obtain ⟨x, hx, hf⟩ := Option.bind_eq_some_iff.1 hf
        rw [Node.eq_sym_of_symbol? hx, ← Form.name_of_ofName? hf] at hnode
        exact holds_ofForm hP hm hK hnode hs
      · cases hs
        exact holds_node hm hK head fun _ hv => (nomatch hv)

theorem holds_ofValue {v : Value} {t : Task} (hv : P v) (ht : ∀ w ∈ t.values, P w)
    (hs : ofValue v t K m = some s) : s.Holds P n := by
  cases t with
  | callee rest => exact holds_ofOperands hP hm hK hv (by simp) hs
  | operands f args rest =>
    obtain ⟨hf, hargs⟩ := List.forall_mem_cons.1 ht
    refine holds_ofOperands hP hm hK hf ?_ hs
    simpa [or_imp, forall_and] using ⟨hargs, hv⟩
  | following rest =>
    cases rest with
    | nil =>
      cases hs
      exact holds_value hm hK hv
    | cons node rest =>
      cases hs
      exact holds_node hm hK node fun _ hw => (nomatch hw)
  | choose yes no =>
    unfold ofValue at hs
    simp only at hs
    split at hs
    · cases hs
      exact holds_inFrame hm hK yes
    · split at hs
      · cases hs
        exact holds_inFrame hm hK _
      · cases hs
        exact holds_value hm hK (hP _ rfl)
  | assign x =>
    unfold ofValue at hs
    simp only at hs
    split at hs
    · rename_i env henv
      cases hs
      exact holds_value (hm.assign hv henv) hK hv
    · cases hs
      exact holds_fault hm hK _
  | define x =>
    cases hs
    exact holds_value (hm.define x hv) hK hv
  | bindPair x rest loop =>
    cases hs
    exact ⟨fun _ hw => (nomatch hw), hK, hm.define x hv⟩
  | test loop last =>
    unfold ofValue at hs
    simp only at hs
    split at hs
    · cases hs
      exact holds_node hm hK _ fun _ hw => (nomatch hw)
    · cases hs
      exact holds_value hm hK (List.forall_mem_singleton.1 ht)
  | advance loop =>
    cases hs
    exact holds_node hm hK _ (List.forall_mem_singleton.2 hv)
  | again loop last =>
    cases hs
    exact holds_node hm hK _ ht
  | release depth =>
    cases hs
    exact holds_value (hm.release depth) hK hv

omit hP in
theorem holds_ofFault (e : Fault) (t : Task) : (ofFault e t K m).Holds P n := by
  cases t with
  | release depth => exact holds_fault (hm.release depth) hK e
  | _ => exact holds_fault hm hK e

theorem holds_ofParams {args : List Value} (hargs : ∀ v ∈ args, P v) (position : Nat)
    (names : List String) (body : Node) : (ofParams args position names body K m).Holds P n := by
  cases names with
  | nil => exact ⟨fun _ hv => (nomatch hv), hK, hm⟩
  | cons x names =>
    have harg : P (Value.argument args position) := by
      unfold Value.argument
      split
      · rename_i v hv
        have hv := hargs v (List.mem_of_getElem? hv)
        cases v with
        | absent => exact hP _ rfl
        | _ => exact hv
      · exact hP _ rfl
    exact ⟨hargs, hK, hm.define x harg⟩

theorem holds_ofPairs (ns : List Node) (loop : Loop) : (ofPairs ns loop K m).Holds P n := by
  have htest : Holds P n ⟨.node loop.cond, .test loop .undefined :: K, m⟩ :=
    holds_node hm hK _ (List.forall_mem_singleton.2 (hP _ rfl))
  rcases ns with _ | ⟨x, _ | ⟨initial, rest⟩⟩
  · exact htest
  · exact htest
  · exact holds_ofName hm hK initial fun _ _ hv => (nomatch hv)

theorem holds_ofSource {i : Input} (hs : ofSource i K m = some s) : s.Holds P n := by
  unfold ofSource at hs
  split at hs
  · cases hs
  · rename_i e m' hr
    cases hs
    exact holds_fault (hm.read hr) hK e
  · rename_i root m' hr
    split at hs
    · cases hs
      refine holds_value (hm.read hr) ?_ (hP _ rfl)
      exact List.forall_mem_cons.2 ⟨fun _ hv => (nomatch hv), hK⟩
    · cases hs
      exact ⟨fun _ hv => (nomatch hv), hK, hm.read hr⟩

omit hm hK in
/-- Unless a function form is taken up, a step brings in no value but scalars. -/
theorem holds_next (hs : s.Holds P n)
    (hform : ∀ node params body, s.focus = .node node → ¬ node.IsFunction params body)
    (hnext : s.next = some s') : s'.Holds P n := by
  obtain ⟨focus, tasks, m⟩ := s
  obtain ⟨hfocus, htasks, hm⟩ := hs
  cases focus with
  | source i => exact holds_ofSource hP hm htasks hnext
  | node node => exact holds_ofNode hP hm htasks (fun params body => hform _ _ _ rfl) hnext
  | result r =>
    cases tasks with
    | nil => cases hnext
    | cons t K =>
      obtain ⟨ht, hK⟩ := List.forall_mem_cons.1 htasks
      cases r with
      | ok v => exact holds_ofValue hP hm hK (hfocus v List.mem_cons_self) ht hnext
      | error e =>
        cases hnext
        exact holds_ofFault hm hK e t
  | params args position names body =>
    cases hnext
    exact holds_ofParams hP hm htasks hfocus position names body
  | pairs ns loop =>
    cases hnext
    exact holds_ofPairs hP hm htasks ns loop

omit hP hm hK in
/-- A step makes a function, with the next identity, and does nothing else; or it makes none, and
each value it leaves was there before or is a scalar. -/
theorem next_cases (h : s.next = some s') :
    (∃ f, s.Makes f ∧ s' = ⟨.result (.ok (.function f)), s.tasks,
      { s.machine with nextId := s.machine.nextId + 1 }⟩) ∨
    ((∀ f, ¬ s.Makes f) ∧ s'.machine.nextId = s.machine.nextId ∧
      ∀ v ∈ s'.values, v ∈ s.values ∨ v.isScalar = true) := by
  by_cases hmakes : ∃ f, s.Makes f
  · obtain ⟨f, hf⟩ := hmakes
    rw [hf.next_eq.2] at h
    exact .inl ⟨f, hf, (Option.some.inj h).symm⟩
  · have hnone : ∀ f, ¬ s.Makes f := fun f hf => hmakes ⟨f, hf⟩
    have hs : s.Holds (fun v => v ∈ s.values ∨ v.isScalar = true) s.machine.nextId :=
      holds_iff.2 ⟨rfl, fun _ hv => .inl hv⟩
    have hs' := holds_next (fun _ hv => .inr hv) hs
      (fun node params body hnode hn => hnone _ (makes_of_isFunction hnode hn)) h
    exact .inr ⟨hnone, holds_iff.1 hs'⟩

end Moment

end Lisplet
