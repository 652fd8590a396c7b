import Lisplet.Proofs.Pairing

/-!
# Two programs side by side

Two programs that go together may run alike although their machines differ. A `Correspondence` says
how the machines of the two runs are related and has one law for each thing that evaluation does to
a machine.

* `Correspondence`: the relation between machines and its laws;
* `Correspondence.Follows`: whenever one action ends, another one ends in a way that goes with it;
* `Correspondence.FollowsInside`: the same for what is done in a frame, which is all that is asked
  of the branches of a conditional and of the bodies of functions;
* `Correspondence.follows_branch`: evaluating branches that go together;
* `Correspondence.follows_eval`: evaluating nodes that go together.

The relation has an index because a frame is open for a while.
-/

namespace Lisplet

/-- Whether an event is that of a call. -/
def Event.isCall : Event → Bool
  | .calledBuiltin _ _ => true
  | .calledFunction _ _ => true
  | _ => false

/-! ### How actions end -/

/-- Actions in a row may be bracketed in any way. -/
instance : LawfulMonad Action := by
  refine .mk' _ (fun x => ?_) (fun _ _ => rfl) fun x f g => ?_
  · funext m
    show Action.bind x _ m = x m
    unfold Action.bind
    cases x m with
    | exhausted => rfl
    | done r m' => cases r <;> rfl
  · funext m
    show Action.bind (Action.bind x f) g m = Action.bind x (fun a => Action.bind (f a) g) m
    unfold Action.bind
    cases x m with
    | exhausted => rfl
    | done r m' => cases r <;> rfl

namespace Action

variable {α β : Type} {x : Action α} {f : α → Action β} {m m' : Machine}

theorem bind_of_ok {a : α} (hx : x m = .done (.ok a) m') : (x >>= f) m = f a m' := by
  show Action.bind x f m = _
  rw [Action.bind, hx]

theorem bind_of_error {e : Fault} (hx : x m = .done (.error e) m') :
    (x >>= f) m = .done (.error e) m' := by
  show Action.bind x f m = _
  rw [Action.bind, hx]

/-- Two actions in a row end if the first one fails, or the second one ends after it. -/
theorem bind_eq_done {r : Except Fault β} (h : (x >>= f) m = .done r m') :
    (∃ e, x m = .done (.error e) m' ∧ r = .error e) ∨
      ∃ a m₁, x m = .done (.ok a) m₁ ∧ f a m₁ = .done r m' := by
  cases hx : x m with
  | exhausted =>
    change Action.bind x f m = _ at h
    simp [Action.bind, hx] at h
  | done s m₁ =>
    cases s with
    | error e =>
      rw [bind_of_error hx] at h
      cases h
      exact .inl ⟨e, rfl, rfl⟩
    | ok a =>
      rw [bind_of_ok hx] at h
      exact .inr ⟨a, m₁, rfl, h⟩

theorem inFrame_eq_done {r : Except Fault α} (h : inFrame x m = .done r m') :
    ∃ m₁, x m.push = .done r m₁ ∧ m' = m₁.release m.env.depth := by
  unfold inFrame at h
  cases hx : x m.push with
  | exhausted => simp [hx] at h
  | done s m₁ =>
    rw [hx] at h
    cases h
    exact ⟨m₁, rfl, rfl⟩

theorem inFrame_of_done {r : Except Fault α} (hx : x m.push = .done r m') :
    inFrame x m = .done r (m'.release m.env.depth) := by
  unfold inFrame
  rw [hx]

theorem inFrame_of_exhausted (hx : x m.push = .exhausted) : inFrame x m = .exhausted := by
  unfold inFrame
  rw [hx]

end Action

/-! ### Results that go together -/

namespace Pairing

variable (P : Pairing)

/-- Two results go together: the same fault, or values that do. -/
def Matches {α : Type} (Q : α → α → Prop) : Except Fault α → Except Fault α → Prop
  | .ok a, .ok b => Q a b
  | .error e, .error e' => e = e' ∧ P.Explains e
  | _, _ => False

/-- Whenever `x` ends on a machine, `y` ends on one that `S` relates to it, with a result that goes
with that of `x`, and `T` relates the machines that they leave. -/
def Leads {α : Type} (S T : Machine → Machine → Prop) (Q : α → α → Prop) (x y : Action α) : Prop :=
  ∀ ⦃m₁ m₂ r m₁'⦄, S m₁ m₂ → x m₁ = .done r m₁' →
    ∃ s m₂', y m₂ = .done s m₂' ∧ T m₁' m₂' ∧ P.Matches Q r s

variable {P}

theorem Leads.bind {α β : Type} {S T : Machine → Machine → Prop} {Q : α → α → Prop}
    {R : β → β → Prop} {x y : Action α} {f g : α → Action β} (hx : P.Leads S S Q x y)
    (hS : ∀ n₁ n₂, S n₁ n₂ → T n₁ n₂) (hf : ∀ a b, Q a b → P.Leads S T R (f a) (g b)) :
    P.Leads S T R (x >>= f) (y >>= g) := by
  intro m₁ m₂ r m₁' hm h
  rcases Action.bind_eq_done h with ⟨e, hx₁, rfl⟩ | ⟨a, n₁, hx₁, hf₁⟩
  · obtain ⟨s, n₂, hy, hn, hs⟩ := hx hm hx₁
    cases s with
    | error e' => exact ⟨.error e', n₂, Action.bind_of_error hy, hS _ _ hn, hs⟩
    | ok b => cases hs
  · obtain ⟨s, n₂, hy, hn, hs⟩ := hx hm hx₁
    cases s with
    | error e' => cases hs
    | ok b =>
      rw [Action.bind_of_ok hy]
      exact hf a b hs hn hf₁

theorem Leads.explains {α : Type} {S T : Machine → Machine → Prop} {Q : α → α → Prop}
    {x y : Action α} (hx : P.Leads S T Q x y) {m₁ m₂ m₁' : Machine} {e : Fault} (hm : S m₁ m₂)
    (h : x m₁ = .done (.error e) m₁') : P.Explains e := by
  obtain ⟨s, _, -, -, hs⟩ := hx hm h
  cases s with
  | error e' => exact hs.2
  | ok b => cases hs

end Pairing

/-! ### The laws -/

/-- A relation between the machines of two runs that evaluation keeps. -/
structure Correspondence (P : Pairing) (ι : Type) where
  related : ι → Machine → Machine → Prop
  lookup : ∀ {i m₁ m₂ x}, related i m₁ m₂ → P.node (.sym x) (.sym x) →
    Option.Rel P.value (m₁.env.lookup x) (m₂.env.lookup x)
  define : ∀ {i m₁ m₂ x v w}, related i m₁ m₂ → P.name x → P.value v w →
    related i (m₁.define x v) (m₂.define x w)
  /-- Where assignments are among the nodes, both runs can do them, or neither can. -/
  assign : ∀ {i m₁ m₂ x e e' v w}, related i m₁ m₂ →
    P.node (.branch [.sym Form.assignment.name, .sym x, e])
      (.branch [.sym Form.assignment.name, .sym x, e']) → P.name x → P.value v w →
    (m₁.env.assign x v = none ∧ m₂.env.assign x w = none) ∨
      ∃ e₁ e₂, m₁.env.assign x v = some e₁ ∧ m₂.env.assign x w = some e₂ ∧
        related i { m₁ with env := e₁ } { m₂ with env := e₂ }
  print : ∀ {i m₁ m₂} line, related i m₁ m₂ → related i (m₁.print line) (m₂.print line)
  note : ∀ {i m₁ m₂ e}, related i m₁ m₂ → e.isCall = true → related i (m₁.note e) (m₂.note e)
  nextId_eq : ∀ {i m₁ m₂}, related i m₁ m₂ → m₁.nextId = m₂.nextId
  fresh : ∀ {i m₁ m₂}, related i m₁ m₂ →
    related i { m₁ with nextId := m₁.nextId + 1 } { m₂ with nextId := m₂.nextId + 1 }
  /-- The second index holds in a frame that is opened on two machines while the first one does. -/
  opened : ι → Machine → Machine → ι → Prop
  enter : ∀ {i m₁ m₂}, related i m₁ m₂ → ∃ j, opened i m₁ m₂ j ∧ related j m₁.push m₂.push
  leave : ∀ {i j m₁ m₂ m₁' m₂'}, opened i m₁ m₂ j → related j m₁' m₂' →
    related i (m₁'.release m₁.env.depth) (m₂'.release m₂.env.depth)

namespace Correspondence

variable {ι α β : Type} {P : Pairing} (C : Correspondence P ι)

/-- Whenever `x` ends, `y` ends on a related machine with a result that goes with it, `Q` being what
is asked of the values, and leaves a related machine. -/
def Follows (Q : α → α → Prop) (x y : Action α) : Prop :=
  ∀ i, P.Leads (C.related i) (C.related i) Q x y

/-- As `Follows`, but in a frame that is opened on `m₁` and `m₂`: the machines need not be related
until the frame is released. -/
def FollowsInside (Q : α → α → Prop) (x y : Action α) : Prop :=
  ∀ ⦃i j m₁ m₂⦄, C.opened i m₁ m₂ j → P.Leads (C.related j)
    (fun n₁ n₂ => C.related i (n₁.release m₁.env.depth) (n₂.release m₂.env.depth)) Q x y

/-! ### Actions in general -/

theorem follows_pure {Q : α → α → Prop} {a b : α} (h : Q a b) :
    C.Follows Q (pure a) (pure b) := by
  intro i m₁ m₂ r m₁' hm hx
  cases hx
  exact ⟨_, m₂, rfl, hm, h⟩

theorem follows_fail {Q : α → α → Prop} {e : Fault} (h : P.Explains e) :
    C.Follows Q (Action.fail e) (Action.fail e) := by
  intro i m₁ m₂ r m₁' hm hx
  cases hx
  exact ⟨_, m₂, rfl, hm, rfl, h⟩

theorem follows_exhaust {Q : α → α → Prop} (y : Action α) : C.Follows Q Action.exhaust y :=
  fun _ _ _ _ _ _ hx => nomatch hx

theorem follows_update {f g : Machine → Machine}
    (hfg : ∀ i m₁ m₂, C.related i m₁ m₂ → C.related i (f m₁) (g m₂)) :
    C.Follows (fun _ _ => True) (Action.update f) (Action.update g) := by
  intro i m₁ m₂ r m₁' hm hx
  cases hx
  exact ⟨_, g m₂, rfl, hfg i m₁ m₂ hm, trivial⟩

variable {C} {Q : α → α → Prop} {R : β → β → Prop} {x y : Action α} {f g : α → Action β}

theorem Follows.bind (hx : C.Follows Q x y) (hf : ∀ a b, Q a b → C.Follows R (f a) (g b)) :
    C.Follows R (x >>= f) (y >>= g) :=
  fun i => (hx i).bind (fun _ _ h => h) fun a b h => hf a b h i

theorem Follows.bind_inside (hx : C.Follows Q x y)
    (hf : ∀ a b, Q a b → C.FollowsInside R (f a) (g b)) :
    C.FollowsInside R (x >>= f) (y >>= g) :=
  fun _ j _ _ hopen => (hx j).bind (fun _ _ h => C.leave hopen h) fun a b h => hf a b h hopen

theorem Follows.inside (hx : C.Follows Q x y) : C.FollowsInside Q x y := by
  intro i j m₁ m₂ hopen n₁ n₂ r n₁' hn h
  obtain ⟨s, n₂', hy, hn', hs⟩ := hx j hn h
  exact ⟨s, n₂', hy, C.leave hopen hn', hs⟩

theorem FollowsInside.inFrame (hx : C.FollowsInside Q x y) :
    C.Follows Q (Action.inFrame x) (Action.inFrame y) := by
  intro i m₁ m₂ r m₁' hm h
  obtain ⟨j, hopen, hj⟩ := C.enter hm
  obtain ⟨n₁, hx₁, rfl⟩ := Action.inFrame_eq_done h
  obtain ⟨s, n₂, hy, hn, hs⟩ := hx hopen hj hx₁
  exact ⟨s, n₂.release m₂.env.depth, Action.inFrame_of_done hy, hn, hs⟩

variable (C)

theorem follows_ofExcept {r : Except Fault α} (hok : ∀ a, r = .ok a → Q a a)
    (herror : ∀ e, r = .error e → P.Explains e) :
    C.Follows Q (Eval.ofExcept r) (Eval.ofExcept r) := by
  cases r with
  | error e => exact C.follows_fail (herror e rfl)
  | ok a => exact C.follows_pure (hok a rfl)

/-! ### Atoms, bindings and functions -/

theorem follows_symbol {x : String} (hx : P.node (.sym x) (.sym x)) :
    C.Follows P.value (Eval.symbol x) (Eval.symbol x) := by
  intro i m₁ m₂ r m₁' hm h
  have hl := C.lookup hm hx
  unfold Eval.symbol at h ⊢
  cases h₁ : m₁.env.lookup x with
  | none =>
    cases h₂ : m₂.env.lookup x with
    | none =>
      rw [h₁] at h
      cases h
      exact ⟨_, m₂, rfl, hm, rfl, trivial⟩
    | some w =>
      rw [h₁, h₂] at hl
      cases hl
  | some v =>
    cases h₂ : m₂.env.lookup x with
    | none =>
      rw [h₁, h₂] at hl
      cases hl
    | some w =>
      rw [h₁, h₂] at hl
      rw [h₁] at h
      cases h
      cases hl with
      | some hv => exact ⟨_, m₂, rfl, hm, hv⟩

theorem follows_atom {t : Token} (ht : P.node (.atom t) (.atom t)) :
    C.Follows P.value (Eval.atom t) (Eval.atom t) := by
  obtain ⟨kind, text⟩ := t
  cases kind with
  | symbol => exact C.follows_symbol ht
  | number => exact C.follows_pure (P.value_number _)
  | string => exact C.follows_pure (P.value_string text)
  | quote => exact C.follows_fail trivial
  | openParen => exact C.follows_fail ⟨rfl, text, _, ht⟩
  | closeParen => exact C.follows_fail ⟨rfl, text, _, ht⟩
  | other code => exact C.follows_fail ⟨rfl, text, _, ht⟩

theorem follows_bindingName (f : Form) {n k : Node} (hn : P.node n k) :
    C.Follows (fun x y => x = y ∧ P.name x ∧ n = .sym x ∧ k = .sym x)
      (Eval.ofExcept (Eval.bindingName f n)) (Eval.ofExcept (Eval.bindingName f k)) := by
  rw [← Pairing.bindingName_eq hn f]
  refine C.follows_ofExcept (fun x hx => ?_) fun e he => Pairing.explains_bindingName he
  obtain ⟨rfl, hr⟩ := Eval.bindingName_ok hx
  obtain rfl := P.atom hn
  exact ⟨rfl, P.name_of_node hn hr, rfl, rfl⟩

theorem follows_define {x : String} {v w : Value} (hx : P.name x) (hv : P.value v w) :
    C.Follows (fun _ _ => True) (Action.update (·.define x v)) (Action.update (·.define x w)) :=
  C.follows_update fun _ _ _ hm => C.define hm hx hv

theorem related_bindParams {vs ws : List Value} (hvs : List.Forall₂ P.value vs ws)
    {params : List String} (hparams : ∀ x ∈ params, P.name x) {i : ι} {m₁ m₂ : Machine} (k : Nat)
    (hm : C.related i m₁ m₂) :
    C.related i (Eval.bindParams vs k params m₁) (Eval.bindParams ws k params m₂) := by
  induction params generalizing k m₁ m₂ with
  | nil => exact hm
  | cons x params ih =>
    obtain ⟨hx, hparams⟩ := List.forall_mem_cons.1 hparams
    exact ih hparams (k + 1) (C.define hm hx (Pairing.value_argument hvs k))

theorem follows_bump {f : Form} {op : Value → Value → Value} {b : Builtin}
    (hop : ∀ v w, op v w = b.apply [v, w]) {n k : Node} (hn : P.node n k) :
    C.Follows P.value (Eval.bump f op n) (Eval.bump f op k) := by
  refine (C.follows_bindingName f hn).bind fun x y hx => ?_
  obtain ⟨rfl, hname, rfl, rfl⟩ := hx
  refine (C.follows_symbol hn).bind fun v w hv => ?_
  have hop : P.value (op v (.number (Binary.ofNat 1))) (op w (.number (Binary.ofNat 1))) := by
    rw [hop, hop]
    exact P.value_apply b (.cons hv (.cons (P.value_number _) .nil))
  exact (C.follows_define hname hop).bind fun _ _ _ => C.follows_pure P.value_undefined

theorem follows_makeFunction {names : List String} (hnames : ∀ x ∈ names, P.name x)
    {n k : Node} (hbody : P.body n k) :
    C.Follows P.value
      (fun m => .done (.ok (m.makeFunction names n).1) (m.makeFunction names n).2)
      (fun m => .done (.ok (m.makeFunction names k).1) (m.makeFunction names k).2) := by
  intro i m₁ m₂ r m₁' hm h
  cases h
  refine ⟨_, _, rfl, C.fresh hm, ?_⟩
  show P.value (.function ⟨m₁.nextId, names, n⟩) (.function ⟨m₂.nextId, names, k⟩)
  rw [← C.nextId_eq hm]
  exact P.value_function.2 ⟨hnames, hbody⟩

theorem follows_function {ns ks : List Node} (hns : Node.Parts P.node P.body ns ks) {n k : Node}
    (hbody : P.body n k) :
    C.Follows P.value
      (Eval.ofExcept (Eval.bindingNames .function ns) >>= fun names m =>
        .done (.ok (m.makeFunction names n).1) (m.makeFunction names n).2)
      (Eval.ofExcept (Eval.bindingNames .function ks) >>= fun names m =>
        .done (.ok (m.makeFunction names k).1) (m.makeFunction names k).2) := by
  rw [← Pairing.bindingNames_eq hns]
  refine Follows.bind (Q := fun xs ys => xs = ys ∧ ∀ x ∈ xs, P.name x) ?_ ?_
  · exact C.follows_ofExcept (fun xs hxs => ⟨rfl, Pairing.name_of_bindingNames hns hxs⟩)
      fun e he => Pairing.explains_bindingNames he
  · rintro xs _ ⟨rfl, hxs⟩
    exact C.follows_makeFunction hxs hbody

theorem follows_assign {x : String} {e e' : Node} {v w : Value}
    (hn : P.node (.branch [.sym Form.assignment.name, .sym x, e])
      (.branch [.sym Form.assignment.name, .sym x, e'])) (hx : P.name x) (hv : P.value v w) :
    C.Follows P.value
      (fun m => match m.env.assign x v with
        | some env => .done (.ok v) { m with env }
        | none => .done (.error (.undefinedSymbol x)) m)
      (fun m => match m.env.assign x w with
        | some env => .done (.ok w) { m with env }
        | none => .done (.error (.undefinedSymbol x)) m) := by
  intro i m₁ m₂ r m₁' hm h
  rcases C.assign hm hn hx hv with ⟨h₁, h₂⟩ | ⟨e₁, e₂, h₁, h₂, he⟩
  · simp only [h₁] at h
    cases h
    exact ⟨.error (.undefinedSymbol x), m₂, by simp only [h₂], hm, rfl, trivial⟩
  · simp only [h₁] at h
    cases h
    exact ⟨.ok w, { m₂ with env := e₂ }, by simp only [h₂], he, hv⟩

/-! ### What evaluation does with the nodes it is led to

`rec₁` and `rec₂` evaluate these nodes in the two runs. -/

section

variable {rec₁ rec₂ : Node → Action Value}
  (hrec : ∀ n k, P.node n k → C.Follows P.value (rec₁ n) (rec₂ k))
  (hbody : ∀ n k, P.body n k → C.FollowsInside P.value (rec₁ n) (rec₂ k))

section

include hrec

theorem follows_all {ns ks : List Node} (hns : List.Forall₂ P.node ns ks) :
    C.Follows (List.Forall₂ P.value) (Eval.all rec₁ ns) (Eval.all rec₂ ks) := by
  induction hns with
  | nil => exact C.follows_pure .nil
  | cons hn _ ih =>
    refine (hrec _ _ hn).bind fun v w hv => ih.bind fun vs ws hvs => ?_
    exact C.follows_pure (.cons hv hvs)

theorem follows_sequence {ns ks : List Node} (hns : List.Forall₂ P.node ns ks) {v w : Value}
    (hv : P.value v w) :
    C.Follows P.value (Eval.sequence rec₁ v ns) (Eval.sequence rec₂ w ks) := by
  induction hns generalizing v w with
  | nil => exact C.follows_pure hv
  | cons hn _ ih => exact (hrec _ _ hn).bind fun v w hv => ih hv

theorem follows_bindPairs {ns ks : List Node} (hns : List.Forall₂ P.node ns ks) :
    C.Follows (fun _ _ => True) (Eval.bindPairs rec₁ ns) (Eval.bindPairs rec₂ ks) := by
  induction ns using Eval.bindPairs.induct generalizing ks with
  | case1 n initial rest ih =>
    obtain ⟨k, ks, hn, hks, rfl⟩ := List.forall₂_cons_left_iff.1 hns
    obtain ⟨initial', rest', hinitial, hrest, rfl⟩ := List.forall₂_cons_left_iff.1 hks
    refine (C.follows_bindingName .loop hn).bind fun x y hx => ?_
    obtain ⟨rfl, hname, -, -⟩ := hx
    refine (hrec initial initial' hinitial).bind fun v w hv => ?_
    exact (C.follows_define hname hv).bind fun _ _ _ => ih hrest
  | case2 ns hshort =>
    have h₁ : Eval.bindPairs rec₁ ns = pure () := by
      unfold Eval.bindPairs
      split
      · exact absurd rfl (hshort _ _ _)
      · rfl
    have h₂ : Eval.bindPairs rec₂ ks = pure () := by
      unfold Eval.bindPairs
      split
      · cases hns with
        | cons _ hns =>
          cases hns
          exact absurd rfl (hshort _ _ _)
      · rfl
    rw [h₁, h₂]
    exact C.follows_pure trivial

/-- Bindings that look like a form are too few, or begin with a reserved name. -/
theorem follows_parts {ns ks : List Node} (hns : Node.Parts P.node P.body ns ks)
    (heven : ns.length % 2 = 0) :
    C.Follows (fun _ _ => True) (Eval.bindPairs rec₁ ns) (Eval.bindPairs rec₂ ks) := by
  cases hns with
  | all hns => exact C.follows_bindPairs hrec hns
  | conditional => simp at heven
  | function => simp at heven
  | alternative =>
    simp only [Eval.bindPairs, Eval.bindingName_form]
    exact Follows.bind (Q := fun _ _ => False) (C.follows_fail trivial) fun _ _ h => h.elim

/-- The rounds of a loop, by induction on those that are left. -/
theorem follows_rounds {cond cond' step step' body body' : Node} (hcond : P.node cond cond')
    (hstep : P.node step step') (hn : P.node body body') {b₁ b₂ : Nat} (hb : b₁ ≤ b₂)
    {v w : Value} (hv : P.value v w) :
    C.Follows P.value (Eval.rounds rec₁ cond step body b₁ v)
      (Eval.rounds rec₂ cond' step' body' b₂ w) := by
  induction b₁ generalizing b₂ v w with
  | zero => exact C.follows_exhaust _
  | succ b₁ ih =>
    obtain ⟨b₂, rfl⟩ := Nat.exists_eq_add_one_of_ne_zero (by omega : b₂ ≠ 0)
    refine (hrec cond cond' hcond).bind fun c c' hc => ?_
    rw [← (P.value_cases hc).isTrue_eq]
    cases c.isTrue with
    | false => exact C.follows_pure hv
    | true =>
      refine (hrec body body' hn).bind fun v w hv => (hrec step step' hstep).bind fun _ _ _ => ?_
      exact ih (by omega) hv

theorem follows_loop {b₁ b₂ : Nat} (hb : b₁ ≤ b₂) {header header' body body' : Node}
    (hheader : P.node header header') (hn : P.node body body') :
    C.Follows P.value (Eval.loop rec₁ b₁ header body) (Eval.loop rec₂ b₂ header' body') := by
  cases header with
  | hole h =>
    obtain rfl := P.hole hheader
    exact C.follows_fail trivial
  | atom t =>
    obtain rfl := P.atom hheader
    exact C.follows_fail trivial
  | branch ns =>
    obtain ⟨ks, rfl, hparts⟩ := P.branch hheader
    cases hparts with
    | conditional => exact C.follows_fail trivial
    | alternative => exact C.follows_fail trivial
    | function => exact C.follows_fail trivial
    | all hns =>
      match ns, ks, hns with
      | [], [], _ => exact C.follows_fail trivial
      | [_], [_], _ => exact C.follows_fail trivial
      | [_, _], [_, _], _ => exact C.follows_fail trivial
      | _ :: _ :: _ :: _ :: _, _ :: _ :: _ :: _ :: _, _ => exact C.follows_fail trivial
      | [bindings, cond, step], [bindings', cond', step'],
          .cons hbindings (.cons hcond (.cons hstep .nil)) =>
        cases bindings with
        | hole h =>
          obtain rfl := P.hole hbindings
          exact C.follows_fail trivial
        | atom t =>
          obtain rfl := P.atom hbindings
          exact C.follows_fail trivial
        | branch pairs =>
          obtain ⟨pairs', rfl, hpairs⟩ := P.branch hbindings
          have hrounds := C.follows_rounds hrec hcond hstep hn hb P.value_undefined
          simp only [Eval.loop, ← Pairing.length_parts hpairs]
          split
          · rename_i heven
            refine (Follows.inside (Follows.bind (Q := fun _ _ => True) ?_
              fun _ _ _ => hrounds)).inFrame
            exact C.follows_parts hrec hpairs heven
          · exact C.follows_fail trivial

end

theorem follows_fn {params params' n k : Node} (hparams : P.node params params')
    (hn : P.body n k) {b₁ b₂ : Nat} :
    C.Follows P.value (Eval.form rec₁ b₁ .function [params, n])
      (Eval.form rec₂ b₂ .function [params', k]) := by
  cases params with
  | hole h =>
    obtain rfl := P.hole hparams
    exact C.follows_fail trivial
  | atom t =>
    obtain rfl := P.atom hparams
    exact C.follows_fail trivial
  | branch ns =>
    obtain ⟨ks, rfl, hns⟩ := P.branch hparams
    exact C.follows_function hns hn

include hbody

theorem follows_call {callee callee' : Value} (hcallee : P.value callee callee')
    {vs ws : List Value} (hvs : List.Forall₂ P.value vs ws) :
    C.Follows P.value (Eval.call rec₁ callee vs) (Eval.call rec₂ callee' ws) := by
  have hfunction : ∀ {id params n k},
      P.value (.function ⟨id, params, n⟩) (.function ⟨id, params, k⟩) →
      C.Follows P.value (Eval.call rec₁ (.function ⟨id, params, n⟩) vs)
        (Eval.call rec₂ (.function ⟨id, params, k⟩) ws) := by
    intro id params n k h
    obtain ⟨hparams, hn⟩ := P.value_function.1 h
    simp only [Eval.call, hvs.length_eq]
    refine (C.follows_update fun _ _ _ hm => C.note hm rfl).bind fun _ _ _ => ?_
    refine FollowsInside.inFrame (Follows.bind_inside (C.follows_update fun _ _ _ hm => ?_)
      fun _ _ _ => hbody n k hn)
    exact C.related_bindParams hvs hparams 0 hm
  rcases P.value_cases hcallee with rfl | ⟨id, params, n, k, rfl, rfl⟩
  · cases callee with
    | builtin b =>
      simp only [Eval.call, hvs.length_eq, Pairing.line_eq hvs]
      refine (C.follows_update fun _ _ _ hm => C.note hm rfl).bind fun _ _ _ => ?_
      have hb : C.Follows P.value (pure (b.apply vs)) (pure (b.apply ws)) :=
        C.follows_pure (P.value_apply b hvs)
      by_cases hp : b = .print
      · simp only [hp, if_true] at hb ⊢
        exact (C.follows_update fun _ _ _ hm => C.print _ hm).bind fun _ _ _ => hb
      · simp only [hp, if_false]
        exact hb
    | function f => exact hfunction hcallee
    | _ => exact C.follows_fail trivial
  · exact hfunction hcallee

include hrec

/-- A conditional, `x` and `y` being what is done unless the condition is true. -/
theorem follows_choice {c c' yes yes' : Node} (hc : P.node c c') (hyes : P.body yes yes')
    {x y : Action Value} (hno : C.Follows P.value x y) :
    C.Follows P.value
      (rec₁ c >>= fun v => if v.isTrue then Action.inFrame (rec₁ yes) else x)
      (rec₂ c' >>= fun v => if v.isTrue then Action.inFrame (rec₂ yes') else y) := by
  refine (hrec c c' hc).bind fun v w hv => ?_
  rw [← (P.value_cases hv).isTrue_eq]
  cases v.isTrue with
  | true => exact (hbody yes yes' hyes).inFrame
  | false => exact hno

theorem follows_form {b₁ b₂ : Nat} (hb : b₁ ≤ b₂) {f : Form} {ns ks : List Node}
    (hn : P.node (.branch (.sym f.name :: ns)) (.branch (.sym f.name :: ks)))
    (hns : List.Forall₂ P.node ns ks) :
    C.Follows P.value (Eval.form rec₁ b₁ f ns) (Eval.form rec₂ b₂ f ks) := by
  by_cases htakes : f.takes ns.length = true
  · cases f with
    | progn =>
      exact (Follows.inside (C.follows_sequence hrec hns P.value_undefined)).inFrame
    | function =>
      match ns, ks, hns with
      | [params, n], [params', k], .cons hparams (.cons hk .nil) =>
        exact C.follows_fn hparams (P.body_of_node hk)
    | conditional =>
      match ns, ks, hns with
      | [c, yes], [c', yes'], .cons hc (.cons hyes .nil) =>
        exact C.follows_choice hrec hbody hc (P.body_of_node hyes)
          (C.follows_pure P.value_undefined)
      | [c, yes, no], [c', yes', no'], .cons hc (.cons hyes (.cons hno .nil)) =>
        exact C.follows_choice hrec hbody hc (P.body_of_node hyes)
          (hbody no no' (P.body_of_node hno)).inFrame
    | increment =>
      match ns, ks, hns with
      | [n], [k], .cons hk .nil => exact C.follows_bump (b := .add) (fun _ _ => rfl) hk
    | decrement =>
      match ns, ks, hns with
      | [n], [k], .cons hk .nil => exact C.follows_bump (b := .subtract) (fun _ _ => rfl) hk
    | assignment =>
      match ns, ks, hns with
      | [n, e], [k, e'], .cons hk (.cons he .nil) =>
        refine (C.follows_bindingName .assignment hk).bind fun x y hx => ?_
        obtain ⟨rfl, hname, rfl, rfl⟩ := hx
        exact (hrec e e' he).bind fun v w hv => C.follows_assign hn hname hv
    | definition =>
      match ns, ks, hns with
      | [n], [k], .cons hk .nil =>
        refine (C.follows_bindingName .definition hk).bind fun x y hx => ?_
        obtain ⟨rfl, hname, -, -⟩ := hx
        refine (C.follows_define hname P.value_undefined).bind fun _ _ _ => ?_
        exact C.follows_pure P.value_undefined
      | [n, e], [k, e'], .cons hk (.cons he .nil) =>
        refine (C.follows_bindingName .definition hk).bind fun x y hx => ?_
        obtain ⟨rfl, hname, -, -⟩ := hx
        refine (hrec e e' he).bind fun v w hv => ?_
        exact (C.follows_define hname hv).bind fun _ _ _ => C.follows_pure hv
    | loop =>
      match ns, ks, hns with
      | [header, n], [header', k], .cons hheader (.cons hk .nil) =>
        exact C.follows_loop hrec hb hheader hk
  · have h₁ : f.takes ns.length = false := Bool.eq_false_iff.2 htakes
    have h₂ : f.takes ks.length = false := hns.length_eq ▸ h₁
    rw [Eval.form_of_takes_eq_false h₁, Eval.form_of_takes_eq_false h₂]
    exact C.follows_fail trivial

theorem follows_branch {b₁ b₂ : Nat} (hb : b₁ ≤ b₂) {ns ks : List Node}
    (hn : P.node (.branch ns) (.branch ks)) :
    C.Follows P.value (Eval.branch rec₁ b₁ ns) (Eval.branch rec₂ b₂ ks) := by
  obtain ⟨_, hk, hparts⟩ := P.branch hn
  cases hk
  cases hparts with
  | conditional hc hyes =>
    rw [Eval.branch_form, Eval.branch_form]
    exact C.follows_choice hrec hbody hc hyes (C.follows_pure P.value_undefined)
  | alternative hc hyes hno =>
    rw [Eval.branch_form, Eval.branch_form]
    exact C.follows_choice hrec hbody hc hyes (hbody _ _ hno).inFrame
  | function hparams hk =>
    rw [Eval.branch_form, Eval.branch_form]
    exact C.follows_fn hparams hk
  | all hns =>
    cases hns with
    | nil => exact C.follows_fail trivial
    | @cons head head' ns ks hhead hns =>
      have hsymbol : head.symbol? = head'.symbol? := Pairing.symbol?_eq hhead
      cases hf : head.symbol?.bind Form.ofName? with
      | some f =>
        obtain ⟨x, hx, hf⟩ := Option.bind_eq_some_iff.1 hf
        have hx' : head'.symbol? = some x := hsymbol ▸ hx
        rw [Node.eq_sym_of_symbol? hx, Node.eq_sym_of_symbol? hx', ← Form.name_of_ofName? hf]
          at hn ⊢
        rw [Eval.branch_form, Eval.branch_form]
        exact C.follows_form hrec hbody hb hn hns
      | none =>
        rw [Eval.branch_application _ _ _ hf, Eval.branch_application _ _ _ (hsymbol ▸ hf)]
        refine (hrec head head' hhead).bind fun callee callee' hcallee => ?_
        exact (C.follows_all hrec hns).bind fun vs ws hvs => C.follows_call hbody hcallee hvs

end

/-- **Evaluating nodes that go together.** Bodies of the second program may take some steps more
than those of the first, so it is given more for each step of the first. -/
theorem follows_eval {d : Nat}
    (hbody : ∀ a b, (∀ n k, P.node n k → C.Follows P.value (eval a n) (eval b k)) →
      ∀ n k, P.body n k → C.FollowsInside P.value (eval a n) (eval (b + d) k))
    {a b : Nat} (hab : a * (d + 1) ≤ b) {n k : Node} (hn : P.node n k) :
    C.Follows P.value (eval a n) (eval b k) := by
  induction a generalizing b n k with
  | zero => exact C.follows_exhaust _
  | succ a ih =>
    rw [Nat.succ_mul] at hab
    obtain ⟨b, rfl⟩ := Nat.exists_eq_add_of_le' (by omega : d + 1 ≤ b)
    have hrec : ∀ c, b ≤ c → ∀ n k, P.node n k → C.Follows P.value (eval a n) (eval c k) :=
      fun c hc n k hn => ih (by omega) hn
    have hle : a ≤ b + d := by
      have := Nat.le_mul_of_pos_right a (Nat.add_one_pos d)
      omega
    rw [← Nat.add_assoc, eval_succ, eval_succ]
    cases n with
    | hole h =>
      have hk := P.hole hn
      subst hk
      exact C.follows_fail ⟨_, hn⟩
    | atom t =>
      have hk := P.atom hn
      subst hk
      exact C.follows_atom hn
    | branch ns =>
      obtain ⟨ks, rfl, -⟩ := P.branch hn
      exact C.follows_branch (hrec _ (by omega)) (hbody a b (hrec b (Nat.le_refl b))) hle hn

end Correspondence

end Lisplet
