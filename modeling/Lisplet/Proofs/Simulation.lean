import Lisplet.Proofs.Correspondence

/-!
# Runs side by side

Two runs of a program may go alike although their machines differ. A `Simulation` says how the
machines of two runs are related and has one law for each thing that evaluation does to a machine.
The laws only speak of nodes, names and values of a `Vocabulary`, which is closed under what
evaluation does with them; so they need not hold for what the program never meets. This is the
case of a `Correspondence` in which every node and every value goes with itself.

* `Vocabulary`: the nodes, names and values of a run;
* `Simulation`: the relation and its laws;
* `Simulation.Follows`: whenever one action ends, another one ends in the same way;
* `Simulation.follows_eval`: evaluation with more steps, on a related machine, follows evaluation;
* `Preserved`: the case of one run, a relation between the machines before and after.

The relation has an index because a frame is open for a while: `Simulation.frame` chooses the
index that holds inside the frame, and leads back to the one outside.
-/

namespace Lisplet

/-! ### The laws -/

/-- The nodes, the names to bind and the values that a run may meet. -/
structure Vocabulary where
  node : Node → Prop
  name : String → Prop
  value : Value → Prop
  node_of_mem : ∀ {ns : List Node} {n : Node}, node (.branch ns) → n ∈ ns → node n
  name_of_node : ∀ {x : String}, node (.sym x) → isReserved x = false → name x
  value_undefined : value .undefined
  value_number : ∀ x : Float, value (.number x)
  value_string : ∀ s : String, value (.string s)
  value_apply : ∀ (b : Builtin) {args : List Value}, (∀ v ∈ args, value v) → value (b.apply args)
  value_function : ∀ {f : Function},
    value (.function f) ↔ (∀ x ∈ f.params, name x) ∧ node f.body

namespace Vocabulary

variable (V : Vocabulary)

/-- Every node and every value of the vocabulary goes with itself. -/
def pairing : Pairing where
  node n k := V.node n ∧ n = k
  body n k := V.node n ∧ n = k
  name := V.name
  value v w := V.value v ∧ v = w
  body_of_node h := h
  hole h := h.2.symm
  atom h := h.2.symm
  branch := by
    rintro ns _ ⟨hns, rfl⟩
    exact ⟨ns, rfl, .all (List.forall₂_same.2 fun n hn => ⟨V.node_of_mem hns hn, rfl⟩)⟩
  name_of_node h hr := V.name_of_node h.1 hr
  value_undefined := ⟨V.value_undefined, rfl⟩
  value_number x := ⟨V.value_number x, rfl⟩
  value_string s := ⟨V.value_string s, rfl⟩
  value_apply b {vs ws} h := by
    rw [List.forall₂_and_left, List.forall₂_eq_eq_eq] at h
    obtain ⟨hvs, rfl⟩ := h
    exact ⟨V.value_apply b hvs, rfl⟩
  value_function := by
    intro id params n k
    rw [V.value_function]
    simp [and_assoc]
  value_cases h := Or.inl h.2

variable {V}

theorem pairing_nodes {ns : List Node} (h : ∀ n ∈ ns, V.node n) :
    List.Forall₂ V.pairing.node ns ns :=
  List.forall₂_same.2 fun n hn => ⟨h n hn, rfl⟩

theorem pairing_values {vs : List Value} (h : ∀ v ∈ vs, V.value v) :
    List.Forall₂ V.pairing.value vs vs :=
  List.forall₂_same.2 fun v hv => ⟨h v hv, rfl⟩

theorem follows_eval {ι : Type} (C : Correspondence V.pairing ι) {fuel₁ fuel₂ : Nat}
    (hfuel : fuel₁ ≤ fuel₂) (n k : Node) (hn : V.pairing.node n k) :
    C.Follows V.pairing.value (eval fuel₁ n) (eval fuel₂ k) :=
  C.follows_eval (d := 0) (fun _ _ hrec n k hn => (hrec n k hn).inside) (by omega) hn

end Vocabulary

/-- A relation between the machines of two runs that evaluation keeps. -/
structure Simulation (V : Vocabulary) (ι : Type) where
  related : ι → Machine → Machine → Prop
  lookup_eq : ∀ {i m₁ m₂ x}, related i m₁ m₂ → V.node (.sym x) →
    m₁.env.lookup x = m₂.env.lookup x
  value_lookup : ∀ {i m₁ m₂ x v}, related i m₁ m₂ → V.node (.sym x) →
    m₁.env.lookup x = some v → V.value v
  define : ∀ {i m₁ m₂ x v}, related i m₁ m₂ → V.name x → V.value v →
    related i (m₁.define x v) (m₂.define x v)
  /-- Where an assignment is among the nodes, both runs can do it, or neither can. -/
  assign : ∀ {i m₁ m₂ x e v}, related i m₁ m₂ →
    V.node (.branch [.sym Form.assignment.name, .sym x, e]) → V.name x → V.value v →
    (m₁.env.assign x v = none ∧ m₂.env.assign x v = none) ∨
      ∃ e₁ e₂, m₁.env.assign x v = some e₁ ∧ m₂.env.assign x v = some e₂ ∧
        related i { m₁ with env := e₁ } { m₂ with env := e₂ }
  print : ∀ {i m₁ m₂} line, related i m₁ m₂ → related i (m₁.print line) (m₂.print line)
  note : ∀ {i m₁ m₂ e}, related i m₁ m₂ → e.isCall = true → related i (m₁.note e) (m₂.note e)
  nextId_eq : ∀ {i m₁ m₂}, related i m₁ m₂ → m₁.nextId = m₂.nextId
  fresh : ∀ {i m₁ m₂}, related i m₁ m₂ →
    related i { m₁ with nextId := m₁.nextId + 1 } { m₂ with nextId := m₂.nextId + 1 }
  frame : ∀ {i m₁ m₂}, related i m₁ m₂ → ∃ j, related j m₁.push m₂.push ∧
    ∀ m₁' m₂', related j m₁' m₂' →
      related i (m₁'.release m₁.env.depth) (m₂'.release m₂.env.depth)

namespace Simulation

variable {ι α : Type} {V : Vocabulary} (S : Simulation V ι)

/-- Whenever `x` ends, `y` ends on a related machine with the same value, which has the property
`P`, or the same fault, and leaves a related machine. -/
def Follows (P : α → Prop) (x y : Action α) : Prop :=
  ∀ ⦃i m₁ m₂ r m₁'⦄, S.related i m₁ m₂ → x m₁ = .done r m₁' →
    ∃ m₂', y m₂ = .done r m₂' ∧ S.related i m₁' m₂' ∧ ∀ a, r = .ok a → P a

/-- The two runs as runs of two programs that are the same. -/
def correspondence : Correspondence V.pairing ι where
  related := S.related
  lookup {i m₁ m₂ x} hm hx := by
    rw [← S.lookup_eq hm hx.1]
    cases hl : m₁.env.lookup x with
    | none => exact .none
    | some v => exact .some ⟨S.value_lookup hm hx.1 hl, rfl⟩
  define := by
    rintro i m₁ m₂ x v _ hm hx ⟨hv, rfl⟩
    exact S.define hm hx hv
  assign := by
    rintro i m₁ m₂ x e e' v _ hm ⟨hn, -⟩ hx ⟨hv, rfl⟩
    exact S.assign hm hn hx hv
  print := S.print
  note := S.note
  nextId_eq := S.nextId_eq
  fresh := S.fresh
  opened i m₁ m₂ j := ∀ m₁' m₂', S.related j m₁' m₂' →
    S.related i (m₁'.release m₁.env.depth) (m₂'.release m₂.env.depth)
  enter hm := by
    obtain ⟨j, hj, leave⟩ := S.frame hm
    exact ⟨j, leave, hj⟩
  leave hopen hm := hopen _ _ hm

/-- An action that follows another one in the correspondence does so in the simulation. -/
theorem follows_of_correspondence {Q : α → Prop} {x y : Action α}
    (h : S.correspondence.Follows (fun a b => Q a ∧ a = b) x y) : S.Follows Q x y := by
  intro i m₁ m₂ r m₁' hm hx
  obtain ⟨s, m₂', hy, hm', hs⟩ := h i hm hx
  cases r with
  | error e =>
    cases s with
    | error e' =>
      obtain ⟨rfl, -⟩ := hs
      exact ⟨m₂', hy, hm', fun a ha => nomatch ha⟩
    | ok b => cases hs
  | ok a =>
    cases s with
    | error e' => cases hs
    | ok b =>
      obtain ⟨ha, rfl⟩ := hs
      exact ⟨m₂', hy, hm', fun a' ha' => Except.ok.inj ha' ▸ ha⟩

theorem correspondence_eval {fuel₁ fuel₂ : Nat} (hfuel : fuel₁ ≤ fuel₂) (n k : Node)
    (hn : V.pairing.node n k) :
    S.correspondence.Follows V.pairing.value (eval fuel₁ n) (eval fuel₂ k) :=
  Vocabulary.follows_eval S.correspondence hfuel n k hn

/-- **Evaluation with at least as many steps, on a related machine, follows evaluation.** -/
theorem follows_eval {fuel₁ fuel₂ : Nat} (hfuel : fuel₁ ≤ fuel₂) {n : Node} (hn : V.node n) :
    S.Follows V.value (eval fuel₁ n) (eval fuel₂ n) :=
  S.follows_of_correspondence (S.correspondence_eval hfuel n n ⟨hn, rfl⟩)

theorem follows_sequence {fuel₁ fuel₂ : Nat} (hfuel : fuel₁ ≤ fuel₂) {ns : List Node}
    (hns : ∀ n ∈ ns, V.node n) {last : Value} (hlast : V.value last) :
    S.Follows V.value (Eval.sequence (eval fuel₁) last ns) (Eval.sequence (eval fuel₂) last ns) :=
  S.follows_of_correspondence (S.correspondence.follows_sequence (S.correspondence_eval hfuel)
    (Vocabulary.pairing_nodes hns) ⟨hlast, rfl⟩)

end Simulation

/-! ### One run -/

/-- Every node, name and value. -/
def Vocabulary.everything : Vocabulary where
  node _ := True
  name _ := True
  value _ := True
  node_of_mem _ _ := trivial
  name_of_node _ _ := trivial
  value_undefined := trivial
  value_number _ := trivial
  value_string _ := trivial
  value_apply _ _ _ := trivial
  value_function := by simp

/-- A relation between the machine before and the machine after, kept by whatever evaluation does
to a machine. -/
structure Preserved (R : Machine → Machine → Prop) : Prop where
  refl : ∀ m, R m m
  trans : ∀ {m₁ m₂ m₃}, R m₁ m₂ → R m₂ m₃ → R m₁ m₃
  define : ∀ m x v, R m (m.define x v)
  assign : ∀ {m x v e}, m.env.assign x v = some e → R m { m with env := e }
  print : ∀ m line, R m (m.print line)
  note : ∀ m {e}, e.isCall = true → R m (m.note e)
  fresh : ∀ m, R m { m with nextId := m.nextId + 1 }
  frame : ∀ {m m'}, R m.push m' → R m (m'.release m.env.depth)

namespace Preserved

variable {R : Machine → Machine → Prop}

/-- The run compared with itself, the index being the machine that the relation starts from. -/
def simulation (h : Preserved R) : Simulation .everything Machine where
  related m₀ m₁ m₂ := m₁ = m₂ ∧ R m₀ m₁
  lookup_eq := by
    rintro _ _ _ _ ⟨rfl, -⟩ -
    rfl
  value_lookup _ _ _ := trivial
  define := by
    rintro m₀ m _ x v ⟨rfl, hm⟩ - -
    exact ⟨rfl, h.trans hm (h.define m x v)⟩
  assign := by
    rintro m₀ m _ x e v ⟨rfl, hm⟩ - - -
    cases he : m.env.assign x v with
    | none => exact .inl ⟨rfl, rfl⟩
    | some e => exact .inr ⟨e, e, rfl, rfl, rfl, h.trans hm (h.assign he)⟩
  print := by
    rintro m₀ m _ line ⟨rfl, hm⟩
    exact ⟨rfl, h.trans hm (h.print m line)⟩
  note := by
    rintro m₀ m _ e ⟨rfl, hm⟩ he
    exact ⟨rfl, h.trans hm (h.note m he)⟩
  nextId_eq := by
    rintro _ _ _ ⟨rfl, -⟩
    rfl
  fresh := by
    rintro m₀ m _ ⟨rfl, hm⟩
    exact ⟨rfl, h.trans hm (h.fresh m)⟩
  frame := by
    rintro m₀ m _ ⟨rfl, hm⟩
    refine ⟨m.push, ⟨rfl, h.refl _⟩, ?_⟩
    rintro m' _ ⟨rfl, hm'⟩
    exact ⟨rfl, h.trans hm (h.frame hm')⟩

theorem eval (h : Preserved R) {fuel : Nat} {n : Node} {m m' : Machine} {r : Except Fault Value}
    (he : eval fuel n m = .done r m') : R m m' := by
  obtain ⟨_, -, ⟨-, hR⟩, -⟩ :=
    h.simulation.follows_eval (Nat.le_refl fuel) trivial ⟨rfl, h.refl m⟩ he
  exact hR

theorem sequence (h : Preserved R) {fuel : Nat} {last : Value} {ns : List Node} {m m' : Machine}
    {r : Except Fault Value}
    (he : Eval.sequence (Lisplet.eval fuel) last ns m = .done r m') : R m m' := by
  have hns : ∀ n ∈ ns, Vocabulary.everything.node n := fun _ _ => trivial
  have hlast : Vocabulary.everything.value last := trivial
  obtain ⟨_, -, ⟨-, hR⟩, -⟩ :=
    h.simulation.follows_sequence (Nat.le_refl fuel) hns hlast ⟨rfl, h.refl m⟩ he
  exact hR

end Preserved

end Lisplet
