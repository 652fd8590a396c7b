import Mathlib.Computability.StateTransition
import Lisplet.Proofs.Alike

/-!
# Evaluation step by step

Evaluation is cut into moments: what is in hand, what is left to do afterwards, and the machine.
From a moment to the next one, a single node is taken up, a single value is handed on, or a single
name is bound. What holds at every moment of an evaluation thus holds all the time, whether the
evaluation ends or not.

* `Moment`, `Moment.next`: the moments of an evaluation;
* `Moment.Lasts`: there are at least so many moments to come;
* `Moment.LeadsTo`: the moments to come agree with the outcome of an action;
* `Moment.leadsTo_eval`: evaluation is what the moments come to, step for step;
* `Input`: sources to evaluate, and `Input.ends_iff`: how they end.
-/

namespace Lisplet

open StateTransition

/-- An action that ends whatever the machine. -/
def Action.Immediate {α : Type} (x : Action α) : Prop := ∀ m, ∃ r m', x m = .done r m'

namespace Action.Immediate

variable {α β : Type}

theorem pure (a : α) : Immediate (Pure.pure a : Action α) := fun m => ⟨_, m, rfl⟩

theorem fail (e : Fault) : Immediate (Action.fail e : Action α) := fun m => ⟨_, m, rfl⟩

theorem update (f : Machine → Machine) : Immediate (Action.update f) := fun m => ⟨_, f m, rfl⟩

theorem bind {x : Action α} {f : α → Action β} (hx : x.Immediate) (hf : ∀ a, (f a).Immediate) :
    (x >>= f).Immediate := by
  intro m
  obtain ⟨r, m', h⟩ := hx m
  cases r with
  | error e => exact ⟨_, m', Action.bind_of_error h⟩
  | ok a =>
    obtain ⟨r, m'', hr⟩ := hf a m'
    exact ⟨r, m'', (Action.bind_of_ok h).trans hr⟩

theorem ofExcept (r : Except Fault α) : (Eval.ofExcept r).Immediate := by
  cases r with
  | error e => exact fail e
  | ok a => exact pure a

theorem symbol (name : String) : (Eval.symbol name).Immediate := by
  intro m
  unfold Eval.symbol
  split
  · exact ⟨_, m, rfl⟩
  · exact ⟨_, m, rfl⟩

theorem atom (t : Token) : (Eval.atom t).Immediate := by
  unfold Eval.atom
  split
  · exact symbol t.text
  · exact pure _
  · exact pure _
  · exact fail _
  · exact fail _

theorem bump (form : Form) (op : Value → Value → Value) (n : Node) :
    (Eval.bump form op n).Immediate :=
  (ofExcept _).bind fun _ => (symbol _).bind fun _ => (update _).bind fun _ => pure _

/-- A form that is none of those that evaluate a node. -/
theorem form {f : Form} {parts : List Node} (rec : Node → Action Value) (budget : Nat)
    (progn : f = .progn → False)
    (conditional : ∀ cond yes, f = .conditional → parts = [cond, yes] → False)
    (alternative : ∀ cond yes no, f = .conditional → parts = [cond, yes, no] → False)
    (assignment : ∀ n e, f = .assignment → parts = [n, e] → False)
    (definition : ∀ n e, f = .definition → parts = [n, e] → False)
    (loop : ∀ pairs cond step body, f = .loop →
      parts = [.branch [.branch pairs, cond, step], body] → False) :
    ∃ x : Action Value, x.Immediate ∧ Eval.form rec budget f parts = x ∧
      Eval.form (fun _ => Action.exhaust) 0 f parts = x := by
  unfold Eval.form
  split
  · exact (progn rfl).elim
  · refine ⟨_, ?_, rfl, rfl⟩
    split
    · exact (ofExcept _).bind fun _ m => ⟨_, _, rfl⟩
    · exact fail _
  · exact (conditional _ _ rfl rfl).elim
  · exact (alternative _ _ _ rfl rfl).elim
  · exact ⟨_, bump _ _ _, rfl, rfl⟩
  · exact ⟨_, bump _ _ _, rfl, rfl⟩
  · exact (assignment _ _ rfl rfl).elim
  · exact ⟨_, (ofExcept _).bind fun _ => (update _).bind fun _ => pure _, rfl, rfl⟩
  · exact (definition _ _ rfl rfl).elim
  · unfold Eval.loop
    split
    · split
      · exact (loop _ _ _ _ rfl rfl).elim
      · exact ⟨_, fail _, rfl, rfl⟩
    · exact ⟨_, fail _, rfl, rfl⟩
  · exact ⟨_, fail _, rfl, rfl⟩

end Action.Immediate

/-- The parts of a loop that are evaluated in each round. -/
structure Loop where
  cond : Node
  step : Node
  body : Node

/-- A source to evaluate on a machine, in a frame of its own or so that its definitions stay. -/
structure Input where
  persistent : Bool
  limits : Limits
  source : String

/-- Evaluate an input in a given number of steps. -/
def Input.evaluate (i : Input) (fuel : Nat) : Action Value :=
  if i.persistent then Interpreter.evaluatePersistent fuel i.limits i.source
  else Interpreter.evaluateSource fuel i.limits i.source

/-- What is in hand. -/
inductive Focus where
  /-- An input that is not read yet. -/
  | source (i : Input)
  | node (n : Node)
  | result (r : Except Fault Value)
  /-- The parameters of a call that are not bound yet. -/
  | params (args : List Value) (position : Nat) (names : List String) (body : Node)
  /-- The names of a loop that are not bound yet. -/
  | pairs (ns : List Node) (loop : Loop)

/-- What is left to do with a value. -/
inductive Task where
  /-- Evaluate the arguments and call the value. -/
  | callee (rest : List Node)
  /-- Take the value as the next argument. -/
  | operands (callee : Value) (args : List Value) (rest : List Node)
  /-- Evaluate the nodes that follow. -/
  | following (rest : List Node)
  | choose (yes : Node) (no : Option Node)
  | assign (name : String)
  | define (name : String)
  /-- Bind a name of a loop, and then the others. -/
  | bindPair (name : String) (rest : List Node) (loop : Loop)
  /-- Do a round if the condition is true. -/
  | test (loop : Loop) (last : Value)
  /-- Evaluate the step after the body. -/
  | advance (loop : Loop)
  /-- Start the next round after the step. -/
  | again (loop : Loop) (last : Value)
  /-- Release the frames above a depth. -/
  | release (depth : Nat)

/-- A moment of an evaluation. -/
structure Moment where
  focus : Focus
  /-- What is left to do, first thing first. -/
  tasks : List Task
  machine : Machine

namespace Moment

/-! ### From moment to moment -/

/-- The moment after an action that evaluates no node. -/
def after (x : Action Value) (K : List Task) (m : Machine) : Option Moment :=
  match x m with
  | .exhausted => none
  | .done r m' => some ⟨.result r, K, m'⟩

/-- Read an input. The nodes of a persistent one are evaluated in turn. -/
def ofSource (i : Input) (K : List Task) (m : Machine) : Option Moment :=
  match Interpreter.read i.limits i.source m with
  | .exhausted => none
  | .done (.error e) m' => some ⟨.result (.error e), K, m'⟩
  | .done (.ok root) m' =>
    if i.persistent then
      some ⟨.result (.ok .undefined), .following (root.children.drop 1) :: K, m'⟩
    else some ⟨.node root, K, m'⟩

/-- Evaluate a node in a frame of its own. -/
def inFrame (n : Node) (K : List Task) (m : Machine) : Moment :=
  ⟨.node n, .release m.env.depth :: K, m.push⟩

/-- Evaluate a node if a name can be bound to its value, `task` being what the name is for. -/
def ofName (name : Except Fault String) (n : Node) (task : String → Task) (K : List Task)
    (m : Machine) : Moment :=
  match name with
  | .ok name => ⟨.node n, task name :: K, m⟩
  | .error e => ⟨.result (.error e), K, m⟩

/-- Take up a call. A function binds its parameters before its body is evaluated. -/
def ofCall (callee : Value) (args : List Value) (K : List Task) (m : Machine) : Option Moment :=
  match callee with
  | .function f =>
    let m := m.note (.calledFunction f.params.length args.length)
    some ⟨.params args 0 f.params f.body, .release m.env.depth :: K, m.push⟩
  | v => after (Eval.call (fun _ => Action.exhaust) v args) K m

/-- Go on with the arguments of a call. -/
def ofOperands (callee : Value) (args : List Value) (rest : List Node) (K : List Task)
    (m : Machine) : Option Moment :=
  match rest with
  | [] => ofCall callee args K m
  | n :: rest => some ⟨.node n, .operands callee args rest :: K, m⟩

/-- Take up a special form. -/
def ofForm (f : Form) (parts : List Node) (K : List Task) (m : Machine) : Option Moment :=
  match f, parts with
  | .progn, ns =>
    some ⟨.result (.ok .undefined), .following ns :: .release m.env.depth :: K, m.push⟩
  | .conditional, [cond, yes] => some ⟨.node cond, .choose yes none :: K, m⟩
  | .conditional, [cond, yes, no] => some ⟨.node cond, .choose yes (some no) :: K, m⟩
  | .assignment, [n, e] => some (ofName (Eval.bindingName .assignment n) e .assign K m)
  | .definition, [n, e] => some (ofName (Eval.bindingName .definition n) e .define K m)
  | .loop, [.branch [.branch pairs, cond, step], body] =>
    if pairs.length % 2 = 0 then
      some ⟨.pairs pairs ⟨cond, step, body⟩, .release m.env.depth :: K, m.push⟩
    else some ⟨.result (.error (.malformed .bindingsNotPaired)), K, m⟩
  -- The other forms evaluate no node.
  | f, parts => after (Eval.form (fun _ => Action.exhaust) 0 f parts) K m

/-- Take up a node. -/
def ofNode (n : Node) (K : List Task) (m : Machine) : Option Moment :=
  match n with
  | .branch (head :: parts) =>
    match head.symbol?.bind Form.ofName? with
    | some f => ofForm f parts K m
    | none => some ⟨.node head, .callee parts :: K, m⟩
  | n => after (evalWith (fun _ => Action.exhaust) 0 n) K m

/-- Hand a value on. -/
def ofValue (v : Value) (t : Task) (K : List Task) (m : Machine) : Option Moment :=
  match t with
  | .callee rest => ofOperands v [] rest K m
  | .operands callee args rest => ofOperands callee (args ++ [v]) rest K m
  | .following [] => some ⟨.result (.ok v), K, m⟩
  | .following (n :: rest) => some ⟨.node n, .following rest :: K, m⟩
  | .choose yes no =>
    if v.isTrue then some (inFrame yes K m)
    else
      match no with
      | some no => some (inFrame no K m)
      | none => some ⟨.result (.ok .undefined), K, m⟩
  | .assign name =>
    match m.env.assign name v with
    | some env => some ⟨.result (.ok v), K, { m with env }⟩
    | none => some ⟨.result (.error (.undefinedSymbol name)), K, m⟩
  | .define name => some ⟨.result (.ok v), K, m.define name v⟩
  | .bindPair name rest loop => some ⟨.pairs rest loop, K, m.define name v⟩
  | .test loop last =>
    if v.isTrue then some ⟨.node loop.body, .advance loop :: K, m⟩
    else some ⟨.result (.ok last), K, m⟩
  | .advance loop => some ⟨.node loop.step, .again loop v :: K, m⟩
  | .again loop last => some ⟨.node loop.cond, .test loop last :: K, m⟩
  | .release depth => some ⟨.result (.ok v), K, m.release depth⟩

/-- After a fault, nothing is left to do but to release frames. -/
def ofFault (e : Fault) (t : Task) (K : List Task) (m : Machine) : Moment :=
  match t with
  | .release depth => ⟨.result (.error e), K, m.release depth⟩
  | _ => ⟨.result (.error e), K, m⟩

/-- Bind the next parameter of a call. -/
def ofParams (args : List Value) (position : Nat) (names : List String) (body : Node)
    (K : List Task) (m : Machine) : Moment :=
  match names with
  | [] => ⟨.node body, K, m⟩
  | name :: names =>
    ⟨.params args (position + 1) names body, K, m.define name (Value.argument args position)⟩

/-- Go on with the names that a loop binds. -/
def ofPairs (ns : List Node) (loop : Loop) (K : List Task) (m : Machine) : Moment :=
  match ns with
  | n :: initial :: rest =>
    ofName (Eval.bindingName .loop n) initial (.bindPair · rest loop) K m
  | _ => ⟨.node loop.cond, .test loop .undefined :: K, m⟩

/-- The next moment; none if nothing is left to do. -/
def next : Moment → Option Moment
  | ⟨.source i, K, m⟩ => ofSource i K m
  | ⟨.node n, K, m⟩ => ofNode n K m
  | ⟨.result _, [], _⟩ => none
  | ⟨.result (.ok v), t :: K, m⟩ => ofValue v t K m
  | ⟨.result (.error e), t :: K, m⟩ => some (ofFault e t K m)
  | ⟨.params args position names body, K, m⟩ => some (ofParams args position names body K m)
  | ⟨.pairs ns loop, K, m⟩ => some (ofPairs ns loop K m)

/-! ### Moments to come -/

/-- There are at least so many moments to come. -/
def Lasts : Nat → Moment → Prop
  | 0, _ => True
  | k + 1, s => ∃ s', s.next = some s' ∧ Lasts k s'

variable {s s' : Moment} {k : Nat} {K : List Task} {m m' : Machine}

theorem Lasts.of_succ (h : Lasts (k + 1) s) : Lasts k s := by
  induction k generalizing s with
  | zero => trivial
  | succ k ih =>
    obtain ⟨s', hs, hk⟩ := h
    exact ⟨s', hs, ih hk⟩

theorem Lasts.mono {j : Nat} (hj : j ≤ k) (h : Lasts k s) : Lasts j s := by
  induction hj with
  | refl => exact h
  | step _ ih => exact ih h.of_succ

theorem Lasts.of_reaches (hs : Reaches next s s') (h : Lasts k s') : Lasts k s := by
  induction hs using Relation.ReflTransGen.head_induction_on with
  | refl => exact h
  | head hstep _ ih => exact Lasts.of_succ ⟨_, hstep, ih⟩

/-- An evaluation that ends does not last for ever. -/
theorem exists_not_lasts (hs : Reaches next s s') (h : s'.next = none) : ∃ k, ¬ Lasts k s := by
  induction hs using Relation.ReflTransGen.head_induction_on with
  | refl =>
    refine ⟨1, ?_⟩
    rintro ⟨t, ht, -⟩
    rw [h] at ht
    cases ht
  | head hstep _ ih =>
    obtain ⟨k, hk⟩ := ih
    refine ⟨k + 1, ?_⟩
    rintro ⟨t, ht, hlast⟩
    rw [Option.mem_def.1 hstep] at ht
    cases ht
    exact hk hlast

/-! ### Moments and outcomes -/

/-- The moments to come agree with an outcome: they lead to its result with the tasks `K` left, or,
if `k` steps were too few for it, there are at least `k` of them. -/
def LeadsTo (k : Nat) (s : Moment) (K : List Task) : Outcome Value → Prop
  | .exhausted => Lasts k s
  | .done r m => Reaches next s ⟨.result r, K, m⟩

theorem LeadsTo.of_reaches {o : Outcome Value} (hs : Reaches next s s') (h : LeadsTo k s' K o) :
    LeadsTo k s K o := by
  cases o with
  | exhausted => exact Lasts.of_reaches hs h
  | done r m => exact hs.trans h

theorem LeadsTo.of_next {o : Outcome Value} (hs : s.next = some s') (h : LeadsTo k s' K o) :
    LeadsTo k s K o :=
  h.of_reaches (.single hs)

theorem LeadsTo.succ {o : Outcome Value} (hs : s.next = some s') (h : LeadsTo k s' K o) :
    LeadsTo (k + 1) s K o := by
  cases o with
  | exhausted => exact ⟨s', hs, h⟩
  | done r m => exact Relation.ReflTransGen.head hs h

theorem LeadsTo.mono {o : Outcome Value} {j : Nat} (hj : j ≤ k) (h : LeadsTo k s K o) :
    LeadsTo j s K o := by
  cases o with
  | exhausted => exact Lasts.mono hj h
  | done r m => exact h

/-- One action after another: the task `t` takes the value of the first one on to the second. -/
theorem LeadsTo.bind {x : Action Value} {f : Value → Action Value} {t : Task}
    (hx : LeadsTo k s (t :: K) (x m))
    (hfault : ∀ e m', next ⟨.result (.error e), t :: K, m'⟩ = some ⟨.result (.error e), K, m'⟩)
    (hf : ∀ v m', LeadsTo k ⟨.result (.ok v), t :: K, m'⟩ K (f v m')) :
    LeadsTo k s K ((x >>= f) m) := by
  show LeadsTo k s K (Action.bind x f m)
  unfold Action.bind
  cases hxm : x m with
  | exhausted =>
    rw [hxm] at hx
    exact hx
  | done r m' =>
    rw [hxm] at hx
    cases r with
    | error e => exact Relation.ReflTransGen.tail hx (hfault e m')
    | ok v => exact (hf v m').of_reaches hx

theorem LeadsTo.inFrame {x : Action Value}
    (hx : LeadsTo k s (.release m.env.depth :: K) (x m.push)) :
    LeadsTo k s K (Action.inFrame x m) := by
  unfold Action.inFrame
  cases hxm : x m.push with
  | exhausted =>
    rw [hxm] at hx
    exact hx
  | done r m' =>
    rw [hxm] at hx
    cases r with
    | error e => exact Relation.ReflTransGen.tail hx rfl
    | ok v => exact Relation.ReflTransGen.tail hx rfl

theorem leadsTo_after {x : Action Value} (hx : x.Immediate) (hs : s.next = after x K m) :
    LeadsTo k s K (x m) := by
  obtain ⟨r, m', h⟩ := hx m
  unfold after at hs
  rw [h] at hs ⊢
  exact .single hs

/-! ### Evaluation is what the moments come to -/

section

variable {rec : Node → Action Value} (hrec : ∀ n m K, LeadsTo k ⟨.node n, K, m⟩ K (rec n m))

include hrec

theorem leadsTo_sequence (ns : List Node) (last : Value) (K : List Task) (m : Machine) :
    LeadsTo k ⟨.result (.ok last), .following ns :: K, m⟩ K (Eval.sequence rec last ns m) := by
  induction ns generalizing last m with
  | nil => exact Relation.ReflTransGen.single rfl
  | cons n ns ih =>
    have hn := hrec n m (.following ns :: K)
    exact (hn.bind (fun _ _ => rfl) ih).of_next rfl

omit hrec in
theorem reaches_params (args : List Value) (position : Nat) (names : List String) (body : Node)
    (K : List Task) (m : Machine) :
    Reaches next ⟨.params args position names body, K, m⟩
      ⟨.node body, K, Eval.bindParams args position names m⟩ := by
  induction names generalizing position m with
  | nil => exact .single rfl
  | cons name names ih => exact .head rfl (ih _ _)

theorem leadsTo_call {callee : Value} {args : List Value} (hs : s.next = ofCall callee args K m) :
    LeadsTo k s K (Eval.call rec callee args m) := by
  cases callee with
  | function f =>
    refine LeadsTo.of_next hs (LeadsTo.inFrame (x := do
      Action.update (Eval.bindParams args 0 f.params)
      rec f.body) ?_)
    exact (hrec _ _ _).of_reaches (reaches_params ..)
  | builtin b => cases b <;> exact .single hs
  | _ => exact .single hs

/-- The arguments of a call, `args` being the values of those before. -/
theorem leadsTo_operands {callee : Value} {args : List Value} {rest : List Node}
    (hs : s.next = ofOperands callee args rest K m) :
    LeadsTo k s K ((Eval.all rec rest >>= fun vs => Eval.call rec callee (args ++ vs)) m) := by
  induction rest generalizing args s m with
  | nil =>
    have hcall := leadsTo_call hrec hs
    rw [← List.append_nil args] at hcall
    exact hcall
  | cons n rest ih =>
    simp only [Eval.all, bind_assoc, pure_bind]
    refine ((hrec n m _).bind (fun _ _ => rfl) fun v m' => ?_).of_next hs
    have hnext : next ⟨.result (.ok v), .operands callee args rest :: K, m'⟩ =
        ofOperands callee (args ++ [v]) rest K m' := rfl
    simpa only [List.append_assoc, List.singleton_append] using ih hnext

/-- The rounds of a loop, by induction on those that are left. -/
theorem leadsTo_rounds (loop : Loop) {budget : Nat} (hb : budget ≤ k) (last : Value)
    (K : List Task) (m : Machine) :
    LeadsTo budget ⟨.node loop.cond, .test loop last :: K, m⟩ K
      (Eval.rounds rec loop.cond loop.step loop.body budget last m) := by
  induction budget generalizing last m with
  | zero => exact trivial
  | succ budget ih =>
    have hrec' : ∀ n m K, LeadsTo (budget + 1) ⟨.node n, K, m⟩ K (rec n m) :=
      fun n m K => (hrec n m K).mono hb
    refine (hrec' loop.cond m _).bind (fun _ _ => rfl) fun c m₁ => ?_
    -- A round that is done takes more than one moment, so the rounds never outnumber the moments.
    by_cases hc : c.isTrue
    · have hnext : next ⟨.result (.ok c), .test loop last :: K, m₁⟩ =
          some ⟨.node loop.body, .advance loop :: K, m₁⟩ := if_pos hc
      rw [if_pos hc]
      refine LeadsTo.of_next hnext ((hrec' loop.body m₁ _).bind (fun _ _ => rfl) fun v m₂ => ?_)
      refine LeadsTo.of_next rfl ((hrec' loop.step m₂ _).bind (fun _ _ => rfl) fun _ m₃ => ?_)
      exact (ih (Nat.le_of_succ_le hb) v m₃).succ rfl
    · have hnext : next ⟨.result (.ok c), .test loop last :: K, m₁⟩ =
          some ⟨.result (.ok last), K, m₁⟩ := if_neg hc
      rw [if_neg hc]
      exact .single hnext

/-- A name is looked at before the node is evaluated whose value is for it. -/
theorem leadsTo_named {name : Except Fault String} {n : Node} {task : String → Task}
    {f : String → Value → Action Value} (hs : s.next = some (ofName name n task K m))
    (hfault : ∀ x e m',
      next ⟨.result (.error e), task x :: K, m'⟩ = some ⟨.result (.error e), K, m'⟩)
    (hf : ∀ x v m', LeadsTo k ⟨.result (.ok v), task x :: K, m'⟩ K (f x v m')) :
    LeadsTo (k + 1) s K ((Eval.ofExcept name >>= fun x => rec n >>= fun v => f x v) m) := by
  cases name with
  | error e => exact .single hs
  | ok x => exact ((hrec n m _).bind (hfault x) (hf x)).succ hs

theorem leadsTo_pairs (loop : Loop) (ns : List Node) (K : List Task) (m : Machine) :
    LeadsTo k ⟨.pairs ns loop, K, m⟩ K
      ((Eval.bindPairs rec ns >>= fun _ =>
        Eval.rounds rec loop.cond loop.step loop.body k .undefined) m) := by
  fun_induction Eval.bindPairs rec ns generalizing m with
  | case1 n initial rest ih =>
    simp only [bind_assoc]
    refine .mono (Nat.le_succ k) (leadsTo_named hrec rfl (fun _ _ _ => rfl) fun name v m' => ?_)
    exact (ih _).of_next rfl
  | case2 ns hns =>
    have hnext : next ⟨.pairs ns loop, K, m⟩ =
        some ⟨.node loop.cond, .test loop .undefined :: K, m⟩ := by
      rcases ns with _ | ⟨n, _ | ⟨initial, rest⟩⟩
      · rfl
      · rfl
      · exact (hns n initial rest rfl).elim
    exact (leadsTo_rounds hrec loop (Nat.le_refl k) .undefined K m).of_next hnext

theorem leadsTo_inFrame {n : Node} (hs : s.next = some (inFrame n K m)) :
    LeadsTo k s K (Action.inFrame (rec n) m) :=
  (LeadsTo.inFrame (hrec n _ _)).of_next hs

theorem leadsTo_choose (c : Value) (yes : Node) (no : Option Node) (K : List Task) (m : Machine) :
    LeadsTo k ⟨.result (.ok c), .choose yes no :: K, m⟩ K
      ((if c.isTrue then Action.inFrame (rec yes)
        else
          match no with
          | some no => Action.inFrame (rec no)
          | none => pure .undefined) m) := by
  by_cases hc : c.isTrue
  · rw [if_pos hc]
    exact leadsTo_inFrame hrec (if_pos hc)
  · rw [if_neg hc]
    cases no with
    | none => exact .single (if_neg hc)
    | some no => exact leadsTo_inFrame hrec (if_neg hc)

theorem leadsTo_form {f : Form} {parts : List Node} (hs : s.next = ofForm f parts K m) :
    LeadsTo (k + 1) s K (Eval.form rec k f parts m) := by
  unfold ofForm at hs
  split at hs
  · -- progn
    exact (LeadsTo.inFrame (leadsTo_sequence hrec parts .undefined _ _)).succ hs
  · -- if, without an else
    rename_i cond yes
    have hchoose := fun c => leadsTo_choose hrec c yes none K
    exact ((hrec cond m _).bind (fun _ _ => rfl) hchoose).succ hs
  · -- if
    rename_i cond yes no
    have hchoose := fun c => leadsTo_choose hrec c yes (some no) K
    exact ((hrec cond m _).bind (fun _ _ => rfl) hchoose).succ hs
  · -- =
    refine leadsTo_named hrec hs (fun _ _ _ => rfl) fun name v m' => ?_
    have hnext : next ⟨.result (.ok v), .assign name :: K, m'⟩ =
        ofValue v (.assign name) K m' := rfl
    simp only [ofValue] at hnext
    split
    · rename_i env henv
      rw [henv] at hnext
      exact .single hnext
    · rename_i henv
      rw [henv] at hnext
      exact .single hnext
  · -- let
    exact leadsTo_named hrec hs (fun _ _ _ => rfl) fun name v m' => .single rfl
  · -- for
    rename_i pairs cond step body
    simp only [Eval.form, Eval.loop]
    split at hs
    · rename_i hp
      rw [if_pos hp]
      exact (LeadsTo.inFrame (leadsTo_pairs hrec ⟨cond, step, body⟩ pairs _ _)).succ hs
    · rename_i hp
      rw [if_neg hp]
      exact .single hs
  · -- A form that evaluates no node does the same whatever evaluates the nodes.
    rename_i h₁ h₂ h₃ h₄ h₅ h₆
    obtain ⟨x, hx, hform, hexhaust⟩ := Action.Immediate.form rec k h₁ h₂ h₃ h₄ h₅ h₆
    rw [hexhaust] at hs
    rw [hform]
    exact leadsTo_after hx hs

end

/-- Evaluation is what the moments come to, step for step. -/
theorem leadsTo_eval (k : Nat) (n : Node) (m : Machine) (K : List Task) :
    LeadsTo k ⟨.node n, K, m⟩ K (eval k n m) := by
  -- The moment at which the node is taken up makes up for the step that evaluation spends on it.
  induction k generalizing n m K with
  | zero => exact trivial
  | succ k ih =>
    rw [eval_succ]
    cases n with
    | hole h => exact .single rfl
    | atom t => exact leadsTo_after (.atom t) rfl
    | branch ns =>
      cases ns with
      | nil => exact .single rfl
      | cons head parts =>
        have hnext : next ⟨.node (.branch (head :: parts)), K, m⟩ =
          ofNode (.branch (head :: parts)) K m := rfl
        show LeadsTo _ _ K (Eval.branch (eval k) k (head :: parts) m)
        unfold ofNode at hnext
        unfold Eval.branch
        cases hform : head.symbol?.bind Form.ofName? with
        | some f =>
          simp only [hform] at hnext ⊢
          exact leadsTo_form ih hnext
        | none =>
          simp only [hform] at hnext ⊢
          refine ((ih head m _).bind (fun _ _ => rfl) fun v m' => ?_).succ hnext
          have hcallee : next ⟨.result (.ok v), .callee parts :: K, m'⟩ =
            ofOperands v [] parts K m' := rfl
          exact leadsTo_operands ih hcallee

theorem leadsTo_source (k : Nat) (i : Input) (m : Machine) (K : List Task) :
    LeadsTo k ⟨.source i, K, m⟩ K (i.evaluate k m) := by
  obtain ⟨persistent, limits, source⟩ := i
  have hnext : next ⟨.source ⟨persistent, limits, source⟩, K, m⟩ =
    ofSource ⟨persistent, limits, source⟩ K m := rfl
  unfold ofSource at hnext
  cases ht : tokenize limits.tokenizerReads source with
  | error e =>
    have hread := Interpreter.read_error ht m
    simp only [hread] at hnext
    have heval : Input.evaluate ⟨persistent, limits, source⟩ k m =
        .done (.error (.unreadable e)) m := by
      cases persistent with
      | true => exact Action.bind_of_error hread
      | false => exact Action.bind_of_error hread
    rw [heval]
    exact .single hnext
  | ok ts =>
    obtain ⟨m', -, hread⟩ := Interpreter.read_ok ht m
    simp only [hread] at hnext
    cases persistent with
    | true =>
      have heval : Input.evaluate ⟨true, limits, source⟩ k m = _ := Action.bind_of_ok hread
      rw [heval]
      exact (leadsTo_sequence (leadsTo_eval k) _ _ K m').of_next hnext
    | false =>
      have heval : Input.evaluate ⟨false, limits, source⟩ k m = _ := Action.bind_of_ok hread
      rw [heval]
      exact (leadsTo_eval k _ m' K).of_next hnext

/-- How an action that is given enough steps ends can be told from the last moment. -/
theorem ends_iff_reaches {x : Nat → Action Value} (hx : ∀ k, LeadsTo k s [] (x k m))
    {r : Except Fault Value} :
    (∃ fuel, x fuel m = .done r m') ↔ Reaches next s ⟨.result r, [], m'⟩ := by
  constructor
  · rintro ⟨fuel, h⟩
    have hlead := hx fuel
    rw [h] at hlead
    exact hlead
  · intro hs
    -- With as many steps as there are moments, the action cannot run out of them.
    obtain ⟨k, hk⟩ := exists_not_lasts hs rfl
    have hlead := hx k
    cases ho : x k m with
    | exhausted =>
      rw [ho] at hlead
      exact (hk hlead).elim
    | done r' m'' =>
      rw [ho] at hlead
      have heq := Part.mem_unique (mem_eval.2 ⟨hlead, rfl⟩) (mem_eval.2 ⟨hs, rfl⟩)
      cases heq
      exact ⟨k, ho⟩

end Moment

/-- An input ends in the last of its moments, if there is one. -/
theorem Input.ends_iff {i : Input} {m m' : Machine} {r : Except Fault Value} :
    (∃ fuel, i.evaluate fuel m = .done r m') ↔
      Reaches Moment.next ⟨.source i, [], m⟩ ⟨.result r, [], m'⟩ :=
  Moment.ends_iff_reaches fun k => Moment.leadsTo_source k i m []

end Lisplet
