import Mathlib.Data.List.Forall2
import Lisplet.Eval

/-!
# Programs that go together

Two programs may run alike although they are not the same. A `Pairing` says which nodes and values
of the one go with which of the other, and is closed under what evaluation does with them: forms
that go together bind the same names, and builtins take values that go together to values that do.

* `Form.takes`: how many parts a form may have;
* `Value.SameButBody`, `Builtin.apply_rel`: builtins do not look into functions;
* `Node.Parts`: the nodes of two branches that go together;
* `Pairing`: nodes, names and values that go together;
* `Pairing.bindingNames_eq`, `Pairing.value_argument`: the names and the arguments of functions.

The branches of a conditional and the bodies of functions are evaluated in frames that are released
right after. So they may differ more than other nodes, and are paired by `Pairing.body`.
-/

namespace Lisplet

/-! ### Names that forms bind -/

theorem Node.eq_sym_of_symbol? {n : Node} {x : String} (h : n.symbol? = some x) : n = .sym x := by
  unfold Node.symbol? at h
  split at h
  · cases h
    rfl
  · cases h

theorem Form.name_of_ofName? {x : String} {f : Form} (h : Form.ofName? x = some f) :
    f.name = x := by
  simpa using List.find?_some h

/-- A form binds a name only at a symbol, and no reserved one. -/
theorem Eval.bindingName_ok {f : Form} {n : Node} {x : String}
    (h : Eval.bindingName f n = .ok x) : n = .sym x ∧ isReserved x = false := by
  unfold Eval.bindingName at h
  cases hs : n.symbol? with
  | none => simp [hs] at h
  | some y =>
    simp only [hs] at h
    split at h
    · cases h
    · rename_i hr
      cases h
      exact ⟨Node.eq_sym_of_symbol? hs, by simpa using hr⟩

theorem Eval.bindingName_form (f g : Form) :
    Eval.bindingName f (.sym g.name) = .error (.reservedName g.name) := by
  show (if isReserved g.name = true then _ else _) = _
  rw [if_pos (isReserved_name g)]

theorem Eval.bindingNames_ok {f : Form} {ns : List Node} {xs : List String}
    (h : Eval.bindingNames f ns = .ok xs) :
    ∀ x ∈ xs, Node.sym x ∈ ns ∧ isReserved x = false := by
  induction ns generalizing xs with
  | nil =>
    cases h
    simp
  | cons n ns ih =>
    unfold Eval.bindingNames at h
    cases hn : Eval.bindingName f n with
    | error e => simp [hn, bind, Except.bind] at h
    | ok y =>
      cases hns : Eval.bindingNames f ns with
      | error e => simp [hn, hns, bind, Except.bind] at h
      | ok ys =>
        simp only [hn, hns, bind, Except.bind, pure, Except.pure, Except.ok.injEq] at h
        subst h
        obtain ⟨rfl, hy⟩ := Eval.bindingName_ok hn
        intro x hx
        rcases List.mem_cons.1 hx with rfl | hx
        · exact ⟨List.mem_cons_self, hy⟩
        · obtain ⟨hmem, hr⟩ := ih hns x hx
          exact ⟨List.mem_cons_of_mem _ hmem, hr⟩

theorem Eval.bindingNames_form (f g : Form) (ns : List Node) :
    Eval.bindingNames f (.sym g.name :: ns) = .error (.reservedName g.name) := by
  unfold Eval.bindingNames
  rw [Eval.bindingName_form]
  rfl

/-! ### The shapes of forms -/

/-- Whether a form may have so many parts. -/
def Form.takes : Form → Nat → Bool
  | .progn, _ => true
  | .function, k => k = 2
  | .conditional, k => k = 2 || k = 3
  | .increment, k => k = 1
  | .decrement, k => k = 1
  | .assignment, k => k = 2
  | .definition, k => k = 1 || k = 2
  | .loop, k => k = 2

theorem Eval.form_of_takes_eq_false {f : Form} {parts : List Node}
    (h : f.takes parts.length = false) (rec : Node → Action Value) (budget : Nat) :
    Eval.form rec budget f parts = Action.fail (.malformed (.arity f)) := by
  unfold Eval.form
  split <;> first | rfl | simp [Form.takes] at h

theorem Eval.branch_form (rec : Node → Action Value) (budget : Nat) (f : Form)
    (parts : List Node) :
    Eval.branch rec budget (.sym f.name :: parts) = Eval.form rec budget f parts := by
  cases f <;> rfl

theorem Eval.branch_application (rec : Node → Action Value) (budget : Nat) {head : Node}
    (parts : List Node) (h : head.symbol?.bind Form.ofName? = none) :
    Eval.branch rec budget (head :: parts) = Eval.application rec head parts := by
  simp only [Eval.branch, h]

/-! ### Values that differ in bodies only -/

/-- Two values are the same, but for the bodies of functions. -/
def Value.SameButBody (v w : Value) : Prop :=
  v = w ∨ ∃ id params n k, v = .function ⟨id, params, n⟩ ∧ w = .function ⟨id, params, k⟩

namespace Value.SameButBody

variable {v v' w w' : Value}

theorem isTrue_eq (h : v.SameButBody v') : v.isTrue = v'.isTrue := by
  rcases h with rfl | ⟨id, params, n, k, rfl, rfl⟩ <;> rfl

theorem kind_eq (h : v.SameButBody v') : v.kind = v'.kind := by
  rcases h with rfl | ⟨id, params, n, k, rfl, rfl⟩ <;> rfl

theorem text_eq (h : v.SameButBody v') : v.text = v'.text := by
  rcases h with rfl | ⟨id, params, n, k, rfl, rfl⟩ <;> rfl

theorem toNumber_eq (h : v.SameButBody v') : v.toNumber = v'.toNumber := by
  rcases h with rfl | ⟨id, params, n, k, rfl, rfl⟩ <;> rfl

theorem truthy_eq (h : v.SameButBody v') : v.truthy = v'.truthy := by
  rcases h with rfl | ⟨id, params, n, k, rfl, rfl⟩ <;> rfl

/-- What does not look at the body of its first or of its second argument looks at neither. -/
theorem eq_of_function {β : Type} {p : Value → Value → β}
    (hleft : ∀ id params n k w,
      p (.function ⟨id, params, n⟩) w = p (.function ⟨id, params, k⟩) w)
    (hright : ∀ id params n k v,
      p v (.function ⟨id, params, n⟩) = p v (.function ⟨id, params, k⟩))
    (h : v.SameButBody v') (h' : w.SameButBody w') : p v w = p v' w' := by
  have hw : p v w = p v w' := by
    rcases h' with rfl | ⟨id, params, n, k, rfl, rfl⟩
    · rfl
    · exact hright id params n k v
  rw [hw]
  rcases h with rfl | ⟨id, params, n, k, rfl, rfl⟩
  · rfl
  · exact hleft id params n k w'

theorem add_eq (h : v.SameButBody v') (h' : w.SameButBody w') : v.add w = v'.add w' := by
  refine eq_of_function (fun _ _ _ _ w => ?_) (fun _ _ _ _ v => ?_) h h'
  · cases w <;> rfl
  · cases v <;> rfl

theorem less_eq (h : v.SameButBody v') (h' : w.SameButBody w') : v.less w = v'.less w' := by
  refine eq_of_function (fun _ _ _ _ w => ?_) (fun _ _ _ _ v => ?_) h h'
  · cases w <;> rfl
  · cases v <;> rfl

theorem lessEqual_eq (h : v.SameButBody v') (h' : w.SameButBody w') :
    v.lessEqual w = v'.lessEqual w' := by
  refine eq_of_function (fun _ _ _ _ w => ?_) (fun _ _ _ _ v => ?_) h h'
  · cases w <;> rfl
  · cases v <;> rfl

/-- Functions are told apart by their identities. -/
theorem strictEq_eq (h : v.SameButBody v') (h' : w.SameButBody w') :
    v.strictEq w = v'.strictEq w' := by
  refine eq_of_function (fun _ _ _ _ w => ?_) (fun _ _ _ _ v => ?_) h h'
  · cases w <;> rfl
  · cases v <;> rfl

/-- Where functions are compared with values of another kind, their texts are. -/
theorem looseEq_eq (h : v.SameButBody v') (h' : w.SameButBody w') :
    v.looseEq w = v'.looseEq w' := by
  refine eq_of_function (fun _ _ _ _ w => ?_) (fun _ _ _ _ v => ?_) h h'
  · cases w <;> simp [looseEq, kind, strictEq, isUndefined, isCallable, text]
  · cases v <;> simp [looseEq, kind, strictEq, isUndefined, isCallable, text]

end Value.SameButBody

section

variable {R : Value → Value → Prop} {vs ws : List Value}

theorem Value.argument_rel (hR : ∀ {v w}, R v w → v.SameButBody w)
    (undefined : R .undefined .undefined) (h : List.Forall₂ R vs ws) (position : Nat) :
    R (Value.argument vs position) (Value.argument ws position) := by
  induction h generalizing position with
  | nil => exact undefined
  | @cons v w vs ws hv _ ih =>
    cases position with
    | zero =>
      show R v.orUndefined w.orUndefined
      rcases hR hv with rfl | ⟨id, params, n, k, rfl, rfl⟩
      · cases v with
        | absent => exact undefined
        | _ => exact hv
      · exact hv
    | succ position => exact ih position

/-- Builtins do not look into functions: if what goes together differs in bodies only, then
builtins return values that go together. -/
theorem Builtin.apply_rel (hR : ∀ {v w}, R v w → v.SameButBody w)
    (undefined : R .undefined .undefined) (number : ∀ x, R (.number x) (.number x))
    (string : ∀ s, R (.string s) (.string s)) (bool : ∀ b, R (.bool b) (.bool b)) (b : Builtin)
    (h : List.Forall₂ R vs ws) : R (b.apply vs) (b.apply ws) := by
  have harg := fun position => hR (Value.argument_rel hR undefined h position)
  have fold : ∀ op : Value → Value → Value,
      (∀ {v v' w w'}, R v v' → R w w' → R (op v w) (op v' w')) →
      R (Value.foldArgs op vs) (Value.foldArgs op ws) := by
    intro op hop
    cases h with
    | nil => exact undefined
    | cons hv hvs =>
      exact List.rel_foldl (P := R) (R := R) (fun _ _ hv _ _ hw => hop hv hw) hv hvs
  have compare : ∀ p : Value → Value → Bool, (∀ {v v' w w'}, v.SameButBody v' →
      w.SameButBody w' → p v w = p v' w') → R (compare p vs) (compare p ws) := by
    intro p hp
    rw [Builtin.compare, Builtin.compare, hp (harg 0) (harg 1)]
    exact bool _
  cases b with
  | print => exact undefined
  | add =>
    refine fold _ fun {v v' w w'} hv hw => ?_
    rw [(hR hv).add_eq (hR hw)]
    cases v' <;> cases w' <;> first | exact number _ | exact string _
  | subtract =>
    refine fold _ fun hv hw => ?_
    rw [Value.subtract, Value.subtract, (hR hv).toNumber_eq, (hR hw).toNumber_eq]
    exact number _
  | multiply =>
    refine fold _ fun hv hw => ?_
    rw [Value.multiply, Value.multiply, (hR hv).toNumber_eq, (hR hw).toNumber_eq]
    exact number _
  | divide =>
    refine fold _ fun hv hw => ?_
    rw [Value.divide, Value.divide, (hR hv).toNumber_eq, (hR hw).toNumber_eq]
    exact number _
  | greater => exact compare _ fun hv hw => hw.less_eq hv
  | greaterEqual => exact compare _ fun hv hw => hw.lessEqual_eq hv
  | less => exact compare _ fun hv hw => hv.less_eq hw
  | lessEqual => exact compare _ fun hv hw => hv.lessEqual_eq hw
  | strictEqual => exact compare _ fun hv hw => hv.strictEq_eq hw
  | strictUnequal => exact compare _ fun hv hw => congrArg (!·) (hv.strictEq_eq hw)
  | looseEqual => exact compare _ fun hv hw => hv.looseEq_eq hw
  | looseUnequal => exact compare _ fun hv hw => congrArg (!·) (hv.looseEq_eq hw)
  | not =>
    rw [Builtin.apply, Builtin.apply, (harg 0).truthy_eq]
    exact bool _

end

/-! ### What goes together -/

/-- Whether a token of a kind has a value, or at least a fault of its own. -/
def TokenKind.hasMeaning : TokenKind → Bool
  | .symbol => true
  | .number => true
  | .string => true
  | .quote => true
  | _ => false

/-- The nodes of two branches that go together. As a rule, each goes with the other one in its
place; but where a node is evaluated in a frame of its own, only the bodies have to. -/
inductive Node.Parts (node body : Node → Node → Prop) : List Node → List Node → Prop
  | all {ns ks : List Node} : List.Forall₂ node ns ks → Parts node body ns ks
  | conditional {c c' yes yes' : Node} : node c c' → body yes yes' →
      Parts node body [.sym Form.conditional.name, c, yes]
        [.sym Form.conditional.name, c', yes']
  | alternative {c c' yes yes' no no' : Node} : node c c' → body yes yes' → body no no' →
      Parts node body [.sym Form.conditional.name, c, yes, no]
        [.sym Form.conditional.name, c', yes', no']
  | function {params params' b b' : Node} : node params params' → body b b' →
      Parts node body [.sym Form.function.name, params, b] [.sym Form.function.name, params', b']

/-- Which nodes and values of one program go with which of another, and the names that both may
bind. -/
structure Pairing where
  node : Node → Node → Prop
  /-- Nodes that are evaluated in frames of their own. -/
  body : Node → Node → Prop
  name : String → Prop
  value : Value → Value → Prop
  body_of_node : ∀ {n k : Node}, node n k → body n k
  hole : ∀ {h : Hole} {k : Node}, node (.hole h) k → k = .hole h
  atom : ∀ {t : Token} {k : Node}, node (.atom t) k → k = .atom t
  branch : ∀ {ns : List Node} {k : Node}, node (.branch ns) k →
    ∃ ks, k = .branch ks ∧ Node.Parts node body ns ks
  name_of_node : ∀ {x : String}, node (.sym x) (.sym x) → isReserved x = false → name x
  value_undefined : value .undefined .undefined
  value_number : ∀ x : Float, value (.number x) (.number x)
  value_string : ∀ s : String, value (.string s) (.string s)
  value_apply : ∀ (b : Builtin) {vs ws : List Value}, List.Forall₂ value vs ws →
    value (b.apply vs) (b.apply ws)
  value_function : ∀ {id : Nat} {params : List String} {n k : Node},
    value (.function ⟨id, params, n⟩) (.function ⟨id, params, k⟩) ↔
      (∀ x ∈ params, name x) ∧ body n k
  value_cases : ∀ {v w : Value}, value v w → v.SameButBody w

namespace Pairing

variable (P : Pairing)

/-- A fault that only a hole or a token without a meaning can cause is due to one among the
nodes. -/
def Explains : Fault → Prop
  | .missingNode h => ∃ k, P.node (.hole h) k
  | .strayToken kind => kind.hasMeaning = false ∧ ∃ text k, P.node (.atom ⟨kind, text⟩) k
  | _ => True

variable {P} {n k : Node}

theorem symbol?_eq (h : P.node n k) : n.symbol? = k.symbol? := by
  cases n with
  | hole e => rw [P.hole h]
  | atom t => rw [P.atom h]
  | branch ns =>
    obtain ⟨ks, rfl, -⟩ := P.branch h
    rfl

theorem bindingName_eq (h : P.node n k) (f : Form) :
    Eval.bindingName f n = Eval.bindingName f k := by
  unfold Eval.bindingName
  rw [symbol?_eq h]

theorem explains_bindingName {f : Form} {e : Fault} (h : Eval.bindingName f n = .error e) :
    P.Explains e := by
  unfold Eval.bindingName at h
  split at h
  · cases h
    trivial
  · split at h
    · cases h
      trivial
    · cases h

theorem explains_bindingNames {f : Form} {ns : List Node} {e : Fault}
    (h : Eval.bindingNames f ns = .error e) : P.Explains e := by
  induction ns with
  | nil => cases h
  | cons n ns ih =>
    unfold Eval.bindingNames at h
    cases hn : Eval.bindingName f n with
    | error e' =>
      rw [hn] at h
      cases h
      exact explains_bindingName hn
    | ok x =>
      cases hns : Eval.bindingNames f ns with
      | error e' =>
        rw [hn, hns] at h
        cases h
        exact ih hns
      | ok xs =>
        rw [hn, hns] at h
        cases h

/-- Lists of nodes that go together have the same names to bind. A list that has the shape of a
form has none, since its first name is reserved. -/
theorem bindingNames_eq {ns ks : List Node} (h : Node.Parts P.node P.body ns ks) (f : Form) :
    Eval.bindingNames f ns = Eval.bindingNames f ks := by
  cases h with
  | all h =>
    induction h with
    | nil => rfl
    | cons hn _ ih => rw [Eval.bindingNames, Eval.bindingNames, bindingName_eq hn, ih]
  | conditional => rw [Eval.bindingNames_form, Eval.bindingNames_form]
  | alternative => rw [Eval.bindingNames_form, Eval.bindingNames_form]
  | function => rw [Eval.bindingNames_form, Eval.bindingNames_form]

theorem node_sym_of_mem {ns ks : List Node} (h : List.Forall₂ P.node ns ks) {x : String}
    (hx : .sym x ∈ ns) : P.node (.sym x) (.sym x) := by
  induction h with
  | nil => cases hx
  | cons hn _ ih =>
    rcases List.mem_cons.1 hx with rfl | hx
    · have hk := P.atom hn
      rwa [hk] at hn
    · exact ih hx

theorem name_of_bindingNames {ns ks : List Node} (h : Node.Parts P.node P.body ns ks) {f : Form}
    {xs : List String} (hxs : Eval.bindingNames f ns = .ok xs) : ∀ x ∈ xs, P.name x := by
  cases h with
  | all h =>
    intro x hx
    obtain ⟨hmem, hr⟩ := Eval.bindingNames_ok hxs x hx
    exact P.name_of_node (node_sym_of_mem h hmem) hr
  | conditional =>
    rw [Eval.bindingNames_form] at hxs
    cases hxs
  | alternative =>
    rw [Eval.bindingNames_form] at hxs
    cases hxs
  | function =>
    rw [Eval.bindingNames_form] at hxs
    cases hxs

theorem length_parts {ns ks : List Node} (h : Node.Parts P.node P.body ns ks) :
    ns.length = ks.length := by
  cases h with
  | all h => exact h.length_eq
  | conditional => rfl
  | alternative => rfl
  | function => rfl

theorem line_eq {vs ws : List Value} (h : List.Forall₂ P.value vs ws) :
    Value.line vs = Value.line ws := by
  have htexts : vs.map Value.text = ws.map Value.text := by
    induction h with
    | nil => rfl
    | cons hv _ ih => rw [List.map_cons, List.map_cons, (P.value_cases hv).text_eq, ih]
  rw [Value.line, Value.line, htexts]

theorem value_argument {vs ws : List Value} (h : List.Forall₂ P.value vs ws) (position : Nat) :
    P.value (Value.argument vs position) (Value.argument ws position) :=
  Value.argument_rel P.value_cases P.value_undefined h position

end Pairing

end Lisplet
