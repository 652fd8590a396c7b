import Lisplet.Proofs.SmallStep
import Lisplet.Proofs.Visibility

/-!
# What holds throughout an evaluation

A property of machines that holds at the start of an evaluation holds at every moment of it, if it
is kept by each thing that evaluation does to a machine. As for two runs side by side, the laws
only speak of the nodes, names and values of a `Vocabulary`; so what is carried along from moment to
moment, besides the property itself, is that everything in hand and left to do belongs to it.

* `Kept`: the laws of a property of machines;
* `Moment.Within`: the property holds, and the moment meets only what is in the vocabulary;
* `Kept.next`, `Kept.reaches`: a step, and any number of steps;
* `Kept.input`, `Kept.session`: an input, and inputs one after the other;
* `Kept.explains`: the faults of an input;
* `kept_within`: whatever the vocabulary, frames bind only names of it, and only to values of it.
-/

namespace Lisplet

open StateTransition

/-- A property of machines that is kept by whatever evaluation does to a machine with names and
values of a vocabulary. -/
structure Kept (V : Vocabulary) (I : Machine → Prop) : Prop where
  lookup : ∀ {m x v}, I m → V.node (.sym x) → m.env.lookup x = some v → V.value v
  define : ∀ {m x v}, I m → V.name x → V.value v → I (m.define x v)
  assign : ∀ {m x v e}, I m → V.name x → V.value v → m.env.assign x v = some e →
    I { m with env := e }
  print : ∀ {m} line, I m → I (m.print line)
  note : ∀ {m} e, I m → I (m.note e)
  fresh : ∀ {m}, I m → I { m with nextId := m.nextId + 1 }
  push : ∀ {m}, I m → I m.push
  release : ∀ {m} d, I m → I (m.release d)

/-! ### Moments within a vocabulary -/

variable (V : Vocabulary)

/-- The parts of the loop are in the vocabulary. -/
structure Loop.Within (loop : Loop) : Prop where
  cond : V.node loop.cond
  step : V.node loop.step
  body : V.node loop.body

/-- The input is read as a program of the vocabulary, if it can be read. -/
def Input.Within (i : Input) : Prop :=
  ∀ ⦃m root m'⦄, Interpreter.read i.limits i.source m = .done (.ok root) m' → V.node root

/-- What is in hand is in the vocabulary. -/
def Focus.Within : Focus → Prop
  | .source i => i.Within V
  | .node n => V.node n
  | .result r => ∀ v, r = .ok v → V.value v
  | .params args _ names body =>
    (∀ v ∈ args, V.value v) ∧ (∀ x ∈ names, V.name x) ∧ V.node body
  | .pairs ns loop => (∀ n ∈ ns, V.node n) ∧ loop.Within V

/-- What is left to do is in the vocabulary. -/
def Task.Within : Task → Prop
  | .callee rest => ∀ n ∈ rest, V.node n
  | .operands f args rest => V.value f ∧ (∀ v ∈ args, V.value v) ∧ ∀ n ∈ rest, V.node n
  | .following rest => ∀ n ∈ rest, V.node n
  | .choose yes no => V.node yes ∧ ∀ n ∈ no, V.node n
  | .assign name => V.name name
  | .define name => V.name name
  | .bindPair name rest loop => V.name name ∧ (∀ n ∈ rest, V.node n) ∧ loop.Within V
  | .test loop last => loop.Within V ∧ V.value last
  | .advance loop => loop.Within V
  | .again loop last => loop.Within V ∧ V.value last
  | .release _ => True

/-- A moment within the vocabulary at which the machine has a property. -/
structure Moment.Within (I : Machine → Prop) (s : Moment) : Prop where
  focus : s.focus.Within V
  tasks : ∀ t ∈ s.tasks, t.Within V
  machine : I s.machine

namespace Kept

variable {V} {I : Machine → Prop} (h : Kept V I)

include h

/-! ### One step -/

/-- The run compared with itself. -/
def simulation : Simulation V Unit where
  related _ m₁ m₂ := m₁ = m₂ ∧ I m₁
  lookup_eq := by
    rintro _ _ _ _ ⟨rfl, -⟩ -
    rfl
  value_lookup := by
    rintro _ _ _ _ _ ⟨rfl, hm⟩ hx hv
    exact h.lookup hm hx hv
  define := by
    rintro _ _ _ _ _ ⟨rfl, hm⟩ hx hv
    exact ⟨rfl, h.define hm hx hv⟩
  assign := by
    rintro _ m _ x _ v ⟨rfl, hm⟩ - hx hv
    cases he : m.env.assign x v with
    | none => exact .inl ⟨rfl, rfl⟩
    | some e => exact .inr ⟨e, e, rfl, rfl, rfl, h.assign hm hx hv he⟩
  print := by
    rintro _ _ _ line ⟨rfl, hm⟩
    exact ⟨rfl, h.print line hm⟩
  note := by
    rintro _ _ _ e ⟨rfl, hm⟩ -
    exact ⟨rfl, h.note e hm⟩
  nextId_eq := by
    rintro _ _ _ ⟨rfl, -⟩
    rfl
  fresh := by
    rintro _ _ _ ⟨rfl, hm⟩
    exact ⟨rfl, h.fresh hm⟩
  frame := by
    rintro _ m _ ⟨rfl, hm⟩
    refine ⟨(), ⟨rfl, h.push hm⟩, ?_⟩
    rintro m' _ ⟨rfl, hm'⟩
    exact ⟨rfl, h.release m.env.depth hm'⟩

/-- Reading records events only. -/
theorem read {limits : Limits} {source : String} {m m' : Machine} {r : Except Fault Node}
    (hm : I m) (hr : Interpreter.read limits source m = .done r m') : I m' := by
  cases ht : tokenize limits.tokenizerReads source with
  | error e =>
    rw [Interpreter.read_error ht m] at hr
    cases hr
    exact hm
  | ok ts =>
    unfold tokenize at ht
    unfold Interpreter.read at hr
    simp only [ht] at hr
    revert hr
    cases (scan (effectiveCap limits.tokenizerReads) source.toList).truncated <;>
      cases Node.isCut (effectiveCap limits.parserReads) ts <;> rintro ⟨⟩
    · exact h.note _ hm
    · exact h.note _ (h.note _ hm)
    · exact h.note _ (h.note _ hm)
    · exact h.note _ (h.note _ (h.note _ hm))

variable {m : Machine} {K : List Task} {s s' : Moment} (hm : I m) (hK : ∀ t ∈ K, t.Within V)

include hm hK

theorem within_after {x : Action Value}
    (hx : h.simulation.correspondence.Follows V.pairing.value x x)
    (hs : Moment.after x K m = some s) : s.Within V I := by
  unfold Moment.after at hs
  cases hxm : x m with
  | exhausted =>
    rw [hxm] at hs
    cases hs
  | done r m' =>
    rw [hxm] at hs
    cases hs
    obtain ⟨_, -, ⟨-, hm'⟩, hr⟩ :=
      h.simulation.follows_of_correspondence hx (i := ()) ⟨rfl, hm⟩ hxm
    exact ⟨hr, hK, hm'⟩

theorem within_inFrame {n : Node} (hn : V.node n) : (Moment.inFrame n K m).Within V I :=
  ⟨hn, List.forall_mem_cons.2 ⟨trivial, hK⟩, h.push hm⟩

omit h in
theorem within_fault (e : Fault) : Moment.Within V I ⟨.result (.error e), K, m⟩ :=
  ⟨fun _ hv => (nomatch hv), hK, hm⟩

omit h in
theorem within_value {v : Value} (hv : V.value v) : Moment.Within V I ⟨.result (.ok v), K, m⟩ :=
  ⟨fun _ h => Except.ok.inj h ▸ hv, hK, hm⟩

omit h in
theorem within_ofName {f : Form} {n e : Node} {task : String → Task} (hn : V.node n)
    (he : V.node e) (htask : ∀ x, V.name x → (task x).Within V) :
    (Moment.ofName (Eval.bindingName f n) e task K m).Within V I := by
  cases hname : Eval.bindingName f n with
  | error e => exact within_fault hm hK e
  | ok x =>
    obtain ⟨rfl, hx⟩ := Eval.bindingName_ok hname
    exact ⟨he, List.forall_mem_cons.2 ⟨htask x (V.name_of_node hn hx), hK⟩, hm⟩

theorem within_ofCall {callee : Value} {args : List Value} (hcallee : V.value callee)
    (hargs : ∀ v ∈ args, V.value v) (hs : Moment.ofCall callee args K m = some s) :
    s.Within V I := by
  have hcall := h.simulation.correspondence.follows_call
    (fun _ _ _ => (h.simulation.correspondence.follows_exhaust Action.exhaust).inside)
    ⟨hcallee, rfl⟩ (Vocabulary.pairing_values hargs)
  cases callee with
  | function f =>
    cases hs
    obtain ⟨hparams, hbody⟩ := V.value_function.1 hcallee
    exact ⟨⟨hargs, hparams, hbody⟩, List.forall_mem_cons.2 ⟨trivial, hK⟩, h.push (h.note _ hm)⟩
  | _ => exact h.within_after hm hK hcall hs

theorem within_ofOperands {callee : Value} {args : List Value} {rest : List Node}
    (hcallee : V.value callee) (hargs : ∀ v ∈ args, V.value v) (hrest : ∀ n ∈ rest, V.node n)
    (hs : Moment.ofOperands callee args rest K m = some s) : s.Within V I := by
  cases rest with
  | nil => exact h.within_ofCall hm hK hcallee hargs hs
  | cons n rest =>
    cases hs
    obtain ⟨hn, hrest⟩ := List.forall_mem_cons.1 hrest
    exact ⟨hn, List.forall_mem_cons.2 ⟨⟨hcallee, hargs, hrest⟩, hK⟩, hm⟩

theorem within_ofForm {f : Form} {parts : List Node}
    (hn : V.node (.branch (.sym f.name :: parts))) (hs : Moment.ofForm f parts K m = some s) :
    s.Within V I := by
  have hpart : ∀ n ∈ parts, V.node n := fun n h => V.node_of_mem hn (List.mem_cons_of_mem _ h)
  unfold Moment.ofForm at hs
  split at hs
  · -- progn
    cases hs
    refine ⟨fun _ hv => Except.ok.inj hv ▸ V.value_undefined, ?_, h.push hm⟩
    exact List.forall_mem_cons.2 ⟨hpart, List.forall_mem_cons.2 ⟨trivial, hK⟩⟩
  · -- if, without an else
    cases hs
    refine ⟨hpart _ (by simp), List.forall_mem_cons.2 ⟨⟨hpart _ (by simp), ?_⟩, hK⟩, hm⟩
    exact fun _ hno => (nomatch hno)
  · -- if
    cases hs
    refine ⟨hpart _ (by simp), List.forall_mem_cons.2 ⟨⟨hpart _ (by simp), ?_⟩, hK⟩, hm⟩
    exact fun _ hno => Option.mem_some.1 hno ▸ hpart _ (by simp)
  · -- =
    cases hs
    exact within_ofName hm hK (hpart _ (by simp)) (hpart _ (by simp)) fun _ hx => hx
  · -- let
    cases hs
    exact within_ofName hm hK (hpart _ (by simp)) (hpart _ (by simp)) fun _ hx => hx
  · -- for
    rename_i pairs cond step body
    split at hs
    · cases hs
      have hheader : V.node (.branch [.branch pairs, cond, step]) := hpart _ (by simp)
      have hpairs : V.node (.branch pairs) := V.node_of_mem hheader (by simp)
      refine ⟨⟨fun n hn => V.node_of_mem hpairs hn, ?_⟩, ?_, h.push hm⟩
      · exact ⟨V.node_of_mem hheader (by simp), V.node_of_mem hheader (by simp),
          hpart _ (by simp)⟩
      · exact List.forall_mem_cons.2 ⟨trivial, hK⟩
    · cases hs
      exact within_fault hm hK _
  · -- A form that evaluates no node keeps the property as any action does.
    have hexhaust := fun n k (_ : V.pairing.node n k) =>
      h.simulation.correspondence.follows_exhaust (Q := V.pairing.value) Action.exhaust
    exact h.within_after hm hK (h.simulation.correspondence.follows_form hexhaust
      (fun n k hn => (hexhaust n k hn).inside) (Nat.le_refl 0) ⟨hn, rfl⟩
      (Vocabulary.pairing_nodes hpart)) hs

theorem within_ofNode {n : Node} (hn : V.node n) (hs : Moment.ofNode n K m = some s) :
    s.Within V I := by
  cases n with
  | hole e =>
    exact h.within_after hm hK
      (h.simulation.correspondence.follows_fail (e := .missingNode e) ⟨_, hn, rfl⟩) hs
  | atom t => exact h.within_after hm hK (h.simulation.correspondence.follows_atom ⟨hn, rfl⟩) hs
  | branch ns =>
    cases ns with
    | nil =>
      exact h.within_after hm hK
        (h.simulation.correspondence.follows_fail (e := .malformed .empty) trivial) hs
    | cons head parts =>
      unfold Moment.ofNode at hs
      simp only at hs
      split at hs
      · rename_i f hf
        obtain ⟨x, hx, hf⟩ := Option.bind_eq_some_iff.1 hf
        rw [Node.eq_sym_of_symbol? hx, ← Form.name_of_ofName? hf] at hn
        exact h.within_ofForm hm hK hn hs
      · cases hs
        refine ⟨V.node_of_mem hn (by simp), List.forall_mem_cons.2 ⟨fun n hmem => ?_, hK⟩, hm⟩
        exact V.node_of_mem hn (List.mem_cons_of_mem _ hmem)

theorem within_ofValue {v : Value} {t : Task} (hv : V.value v) (ht : t.Within V)
    (hs : Moment.ofValue v t K m = some s) : s.Within V I := by
  cases t with
  | callee rest => exact h.within_ofOperands hm hK hv (by simp) ht hs
  | operands callee args rest =>
    obtain ⟨hcallee, hargs, hrest⟩ := ht
    refine h.within_ofOperands hm hK hcallee ?_ hrest hs
    simpa [or_imp, forall_and] using ⟨hargs, hv⟩
  | following rest =>
    cases rest with
    | nil =>
      cases hs
      exact within_value hm hK hv
    | cons n rest =>
      cases hs
      obtain ⟨hn, hrest⟩ := List.forall_mem_cons.1 ht
      exact ⟨hn, List.forall_mem_cons.2 ⟨hrest, hK⟩, hm⟩
  | choose yes no =>
    obtain ⟨hyes, hno⟩ := ht
    unfold Moment.ofValue at hs
    simp only at hs
    split at hs
    · cases hs
      exact h.within_inFrame hm hK hyes
    · split at hs
      · cases hs
        exact h.within_inFrame hm hK (hno _ rfl)
      · cases hs
        exact within_value hm hK V.value_undefined
  | assign name =>
    unfold Moment.ofValue at hs
    simp only at hs
    split at hs
    · rename_i env henv
      cases hs
      exact within_value (h.assign hm ht hv henv) hK hv
    · cases hs
      exact within_fault hm hK _
  | define name =>
    cases hs
    exact within_value (h.define hm ht hv) hK hv
  | bindPair name rest loop =>
    cases hs
    obtain ⟨hname, hrest, hloop⟩ := ht
    exact ⟨⟨hrest, hloop⟩, hK, h.define hm hname hv⟩
  | test loop last =>
    obtain ⟨hloop, hlast⟩ := ht
    unfold Moment.ofValue at hs
    simp only at hs
    split at hs
    · cases hs
      exact ⟨hloop.body, List.forall_mem_cons.2 ⟨hloop, hK⟩, hm⟩
    · cases hs
      exact within_value hm hK hlast
  | advance loop =>
    cases hs
    exact ⟨Loop.Within.step ht, List.forall_mem_cons.2 ⟨⟨ht, hv⟩, hK⟩, hm⟩
  | again loop last =>
    cases hs
    exact ⟨ht.1.cond, List.forall_mem_cons.2 ⟨ht, hK⟩, hm⟩
  | release depth =>
    cases hs
    exact within_value (h.release depth hm) hK hv

theorem within_ofFault (e : Fault) (t : Task) : (Moment.ofFault e t K m).Within V I := by
  cases t with
  | release depth => exact within_fault (h.release depth hm) hK e
  | _ => exact within_fault hm hK e

theorem within_ofParams {args : List Value} {names : List String} {body : Node} (position : Nat)
    (hargs : ∀ v ∈ args, V.value v) (hnames : ∀ x ∈ names, V.name x) (hbody : V.node body) :
    (Moment.ofParams args position names body K m).Within V I := by
  cases names with
  | nil => exact ⟨hbody, hK, hm⟩
  | cons x names =>
    obtain ⟨hx, hnames⟩ := List.forall_mem_cons.1 hnames
    have harg := (Pairing.value_argument (Vocabulary.pairing_values hargs) position).1
    exact ⟨⟨hargs, hnames, hbody⟩, hK, h.define hm hx harg⟩

omit h in
theorem within_ofPairs {ns : List Node} {loop : Loop} (hns : ∀ n ∈ ns, V.node n)
    (hloop : loop.Within V) : (Moment.ofPairs ns loop K m).Within V I := by
  have htest : Moment.Within V I ⟨.node loop.cond, .test loop .undefined :: K, m⟩ :=
    ⟨hloop.cond, List.forall_mem_cons.2 ⟨⟨hloop, V.value_undefined⟩, hK⟩, hm⟩
  rcases ns with _ | ⟨n, _ | ⟨initial, rest⟩⟩
  · exact htest
  · exact htest
  · refine within_ofName hm hK (hns n (by simp)) (hns initial (by simp)) fun x hx => ?_
    exact ⟨hx, fun k hk => hns k (by simp [hk]), hloop⟩

theorem within_ofSource {i : Input} (hi : i.Within V) (hs : Moment.ofSource i K m = some s) :
    s.Within V I := by
  unfold Moment.ofSource at hs
  split at hs
  · cases hs
  · rename_i e m' hr
    cases hs
    exact within_fault (h.read hm hr) hK e
  · rename_i root m' hr
    have hroot : V.node root := hi hr
    split at hs
    · cases hs
      refine ⟨fun _ hv => Except.ok.inj hv ▸ V.value_undefined, ?_, h.read hm hr⟩
      refine List.forall_mem_cons.2 ⟨fun n hn => ?_, hK⟩
      cases root with
      | branch ns => exact V.node_of_mem hroot (List.mem_of_mem_drop hn)
      | hole e => cases hn
      | atom t => cases hn
    · cases hs
      exact ⟨hroot, hK, h.read hm hr⟩

omit hm hK in
/-- What holds at a moment holds at the next one. -/
theorem next (hs : s.Within V I) (hnext : s.next = some s') : s'.Within V I := by
  obtain ⟨focus, tasks, m⟩ := s
  obtain ⟨hfocus, htasks, hm⟩ := hs
  cases focus with
  | source i => exact h.within_ofSource hm htasks hfocus hnext
  | node n => exact h.within_ofNode hm htasks hfocus hnext
  | result r =>
    cases tasks with
    | nil => cases hnext
    | cons t K =>
      obtain ⟨ht, hK⟩ := List.forall_mem_cons.1 htasks
      cases r with
      | ok v => exact h.within_ofValue hm hK (hfocus v rfl) ht hnext
      | error e =>
        cases hnext
        exact h.within_ofFault hm hK e t
  | params args position names body =>
    cases hnext
    obtain ⟨hargs, hnames, hbody⟩ := hfocus
    exact h.within_ofParams hm htasks position hargs hnames hbody
  | pairs ns loop =>
    cases hnext
    exact within_ofPairs hm htasks hfocus.1 hfocus.2

omit hm hK in
/-- What holds at the start holds at every moment. -/
theorem reaches (hs : s.Within V I) (hreach : Reaches Moment.next s s') : s'.Within V I := by
  induction hreach with
  | refl => exact hs
  | tail _ hnext ih => exact h.next ih hnext

end Kept

/-! ### One input after the other -/

/-- The inputs were evaluated on a machine one after the other, each with a value or a fault. -/
inductive Session : Machine → List Input → Machine → Prop
  | nil {m : Machine} : Session m [] m
  | cons {m m' m'' : Machine} {i : Input} {is : List Input} {fuel : Nat}
      {r : Except Fault Value} : i.evaluate fuel m = .done r m' → Session m' is m'' →
      Session m (i :: is) m''

section

variable {V : Vocabulary} {I : Machine → Prop} (h : Kept V I)

include h

/-- What holds before an input holds at every moment of it. -/
theorem Kept.input {i : Input} {m : Machine} {s : Moment} (hi : i.Within V) (hm : I m)
    (hs : Reaches Moment.next ⟨.source i, [], m⟩ s) : s.Within V I :=
  h.reaches (s := ⟨.source i, [], m⟩) ⟨hi, fun _ ht => (nomatch ht), hm⟩ hs

/-- What holds before some inputs holds after them. -/
theorem Kept.session {is : List Input} {m m' : Machine} (his : ∀ i ∈ is, i.Within V) (hm : I m)
    (hs : Session m is m') : I m' := by
  induction hs with
  | nil => exact hm
  | cons he _ ih =>
    obtain ⟨hi, his⟩ := List.forall_mem_cons.1 his
    exact ih his (h.input hi hm (Input.ends_iff.1 ⟨_, he⟩)).machine

/-- An input fails because it cannot be scanned, or with a fault that the vocabulary explains. -/
theorem Kept.explains {i : Input} {m m' : Machine} {fuel : Nat} {e : Fault} (hi : i.Within V)
    (hm : I m) (he : i.evaluate fuel m = .done (.error e) m') :
    (∃ s, e = .unreadable s) ∨ V.pairing.Explains e := by
  obtain ⟨persistent, limits, source⟩ := i
  have heval := h.simulation.correspondence_eval (Nat.le_refl fuel)
  cases ht : tokenize limits.tokenizerReads source with
  | error s =>
    have hread := Interpreter.read_error ht m
    cases persistent with
    | true =>
      cases (Action.bind_of_error hread).symm.trans he
      exact .inl ⟨s, rfl⟩
    | false =>
      cases (Action.bind_of_error hread).symm.trans he
      exact .inl ⟨s, rfl⟩
  | ok ts =>
    obtain ⟨m₁, -, hread⟩ := Interpreter.read_ok ht m
    have hm₁ := h.read hm hread
    have hroot := hi hread
    cases persistent with
    | true =>
      have hnodes : ∀ n ∈ Node.forestOf (ts.take (effectiveCap limits.parserReads)), V.node n :=
        fun n hn => V.node_of_mem hroot (List.mem_cons_of_mem _ hn)
      have hfollows := h.simulation.correspondence.follows_sequence heval
        (Vocabulary.pairing_nodes hnodes) ⟨V.value_undefined, rfl⟩
      exact .inr ((hfollows ()).explains ⟨rfl, hm₁⟩ ((Action.bind_of_ok hread).symm.trans he))
    | false =>
      have hfollows := heval _ _ ⟨hroot, rfl⟩
      exact .inr ((hfollows ()).explains ⟨rfl, hm₁⟩ ((Action.bind_of_ok hread).symm.trans he))

end

/-! ### What frames bind -/

namespace Frame

theorem mem_of_get? {x : String} {v : Value} {f : Frame} (h : f.get? x = some v) : (x, v) ∈ f := by
  induction f with
  | nil => cases h
  | cons b f ih =>
    obtain ⟨key, w⟩ := b
    by_cases hk : key = x
    · rw [get?, if_pos hk] at h
      cases h
      exact hk ▸ List.mem_cons_self
    · rw [get?, if_neg hk] at h
      exact List.mem_cons_of_mem _ (ih h)

theorem mem_set {x : String} {v : Value} {f : Frame} {b : String × Value} (h : b ∈ f.set x v) :
    b = (x, v) ∨ b ∈ f := by
  induction f with
  | nil => exact .inl (List.mem_singleton.1 h)
  | cons c f ih =>
    obtain ⟨key, w⟩ := c
    by_cases hk : key = x
    · rw [set, if_pos hk, hk] at h
      rcases List.mem_cons.1 h with h | h
      · exact .inl h
      · exact .inr (List.mem_cons_of_mem _ h)
    · rw [set, if_neg hk] at h
      rcases List.mem_cons.1 h with rfl | h
      · exact .inr List.mem_cons_self
      · exact (ih h).imp_right (List.mem_cons_of_mem _)

end Frame

namespace Environment

variable {x : String} {v : Value} {fs gs : List Frame}

theorem mem_of_lookupIn (h : lookupIn x fs = some v) : ∃ f ∈ fs, (x, v) ∈ f := by
  induction fs with
  | nil => cases h
  | cons f fs ih =>
    rw [lookupIn] at h
    split at h
    · rename_i w hw
      cases h
      exact ⟨f, List.mem_cons_self, Frame.mem_of_get? hw⟩
    · obtain ⟨g, hg, hb⟩ := ih h
      exact ⟨g, List.mem_cons_of_mem _ hg, hb⟩

theorem mem_of_assignIn (h : assignIn x v fs = some gs) {g : Frame} {b : String × Value}
    (hg : g ∈ gs) (hb : b ∈ g) : b = (x, v) ∨ ∃ f ∈ fs, b ∈ f := by
  induction fs generalizing gs with
  | nil => cases h
  | cons f fs ih =>
    rw [assignIn] at h
    split at h
    · cases h
      rcases List.mem_cons.1 hg with rfl | hg
      · exact (Frame.mem_set hb).imp_right fun hb => ⟨f, List.mem_cons_self, hb⟩
      · exact .inr ⟨g, List.mem_cons_of_mem _ hg, hb⟩
    · obtain ⟨gs', hgs, rfl⟩ := Option.map_eq_some_iff.1 h
      rcases List.mem_cons.1 hg with rfl | hg
      · exact .inr ⟨g, List.mem_cons_self, hb⟩
      · refine (ih hgs hg).imp_right ?_
        rintro ⟨f', hf, hb⟩
        exact ⟨f', List.mem_cons_of_mem _ hf, hb⟩

theorem frames_drop_suffix (n : Nat) (e : Environment) : (e.drop n).frames <:+ e.frames := by
  induction n generalizing e with
  | zero => exact List.suffix_refl _
  | succ n ih =>
    obtain ⟨inner, outer⟩ := e
    cases outer with
    | nil => exact List.suffix_refl _
    | cons f outer => exact (ih ⟨f, outer⟩).trans (List.suffix_cons _ _)

end Environment

/-! ### Frames that bind names of a vocabulary to values of it -/

/-- A frame binds names of the vocabulary only, and to values of it. -/
def Vocabulary.Binds (V : Vocabulary) (f : Frame) : Prop := ∀ b ∈ f, V.name b.1 ∧ V.value b.2

section

variable {V : Vocabulary} {x : String} {v : Value} {f : Frame} {fs gs : List Frame}

theorem Vocabulary.Binds.set (hf : V.Binds f) (hx : V.name x) (hv : V.value v) :
    V.Binds (f.set x v) := by
  intro b hb
  rcases Frame.mem_set hb with rfl | hb
  · exact ⟨hx, hv⟩
  · exact hf b hb

theorem binds_lookupIn (hfs : ∀ f ∈ fs, V.Binds f)
    (h : Environment.lookupIn x fs = some v) : V.name x ∧ V.value v := by
  obtain ⟨f, hf, hb⟩ := Environment.mem_of_lookupIn h
  exact hfs f hf _ hb

theorem binds_assignIn (hfs : ∀ f ∈ fs, V.Binds f) (hx : V.name x) (hv : V.value v)
    (h : Environment.assignIn x v fs = some gs) : ∀ g ∈ gs, V.Binds g := by
  intro g hg b hb
  rcases Environment.mem_of_assignIn h hg hb with rfl | ⟨f, hf, hb⟩
  · exact ⟨hx, hv⟩
  · exact hfs f hf b hb

end

/-- All frames of the machine bind names of the vocabulary only, and to values of it. -/
def Machine.Within (V : Vocabulary) (m : Machine) : Prop := ∀ f ∈ m.env.frames, V.Binds f

/-- A machine that starts with the builtins, in a frame of its own or not. -/
theorem Machine.within_of_standard {V : Vocabulary} {m : Machine}
    (h : m.env = .standard ∨ m.env = Environment.standard.push)
    (hV : ∀ b : Builtin, V.name b.name ∧ V.value (.builtin b)) : m.Within V := by
  have hstandard : ∀ f ∈ Environment.standard.frames, V.Binds f := by
    intro f hf b hb
    cases List.mem_singleton.1 hf
    obtain ⟨c, -, rfl⟩ := List.mem_map.1 hb
    exact hV c
  rcases h with h | h
  · rw [Machine.Within, h]
    exact hstandard
  · rw [Machine.Within, h]
    exact List.forall_mem_cons.2 ⟨fun _ hb => absurd hb List.not_mem_nil, hstandard⟩

/-- Whatever the vocabulary, the frames never bind anything else. -/
theorem kept_within (V : Vocabulary) : Kept V (Machine.Within V) where
  lookup hm _ h := (binds_lookupIn hm h).2
  define hm hx hv := by
    obtain ⟨hinner, houter⟩ := List.forall_mem_cons.1 hm
    exact List.forall_mem_cons.2 ⟨hinner.set hx hv, houter⟩
  assign {m x v e} hm hx hv he := by
    have hframes : Environment.assignIn x v m.env.frames = some e.frames := by
      rw [← Environment.frames_assign, he, Option.map_some]
    exact binds_assignIn hm hx hv hframes
  print _ hm := hm
  note e hm := by rwa [Machine.Within, Machine.env_note]
  fresh hm := hm
  push hm := by
    rw [Machine.Within, Machine.env_push]
    exact List.forall_mem_cons.2 ⟨fun _ hb => (nomatch hb), hm⟩
  release d hm := by
    rw [Machine.Within, Machine.env_release]
    exact fun f hf => hm f ((Environment.frames_drop_suffix _ _).subset hf)

end Lisplet
