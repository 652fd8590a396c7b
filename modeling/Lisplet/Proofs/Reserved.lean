import Lisplet.Proofs.Throughout

/-!
# Reserved names

The names of the special forms cannot be bound. Forms refuse to bind them, but a call binds the
parameters of a function without a check of its own; so it matters that no function has a reserved
name among its parameters, wherever functions are: in a frame, among the arguments of a call, in a
result that is handed on. The names and values that are left make a vocabulary, and evaluation
stays within it.

* `reservedNames`: the names, and `isReserved_iff`: they are those of the forms;
* `Vocabulary.unreserved`: the names that are not reserved, and the values without them;
* `reserved_names_never_bound`: throughout a session, no reserved name is bound.
-/

namespace Lisplet

open StateTransition

/-- The names that nothing can be bound to. -/
def reservedNames : List String := ["progn", "fn", "if", "++", "--", "=", "let", "for"]

theorem isReserved_iff {x : String} : isReserved x = true ↔ x ∈ reservedNames := by
  constructor
  · intro h
    obtain ⟨f, hf⟩ := Option.isSome_iff_exists.1 h
    rw [← Form.name_of_ofName? hf]
    cases f <;> decide
  · intro h
    simp only [reservedNames, List.mem_cons, List.not_mem_nil, or_false] at h
    rcases h with rfl | rfl | rfl | rfl | rfl | rfl | rfl | rfl <;> decide

/-- A value is no function, or one without a reserved name among its parameters. -/
def Value.Unreserved : Value → Prop
  | .function f => ∀ x ∈ f.params, x ∉ reservedNames
  | _ => True

/-- The names that are not reserved, and the values without them. -/
def Vocabulary.unreserved : Vocabulary where
  node _ := True
  name x := x ∉ reservedNames
  value := Value.Unreserved
  node_of_mem _ _ := trivial
  name_of_node _ hx h := by
    rw [isReserved_iff.2 h] at hx
    cases hx
  value_undefined := trivial
  value_number _ := trivial
  value_string _ := trivial
  value_apply b _ hargs :=
    b.apply_induction trivial (fun _ => trivial) (fun _ => trivial) (fun _ => trivial) hargs
  value_function := (and_iff_left trivial).symm

/-- The builtins have names of their own. -/
theorem Builtin.name_notMem_reservedNames (b : Builtin) : b.name ∉ reservedNames := by
  cases b <;> decide

/-- A reserved name is undefined as long as none is bound. -/
theorem eval_reserved {m : Machine} (hm : m.Within .unreserved) {x : String}
    (hx : x ∈ reservedNames) (fuel : Nat) :
    eval (fuel + 1) (.sym x) m = .done (.error (.undefinedSymbol x)) m := by
  show Eval.symbol x m = _
  unfold Eval.symbol
  split
  · rename_i v hv
    exact absurd hx (binds_lookupIn hm hv).1
  · rfl

/-- **Reserved names are never bound.** Inputs are evaluated one after the other, whether they fail
or not, on a machine that starts with the builtins. At every moment of the next input, no frame
binds a reserved name or holds a function with a reserved parameter, so that a reserved name, taken
as a symbol, is undefined. The moments are those of the evaluation: they lead to its result if it
has one, and no function that is returned has a reserved parameter. -/
theorem reserved_names_never_bound {m₀ m : Machine} {inputs : List Input}
    (h₀ : m₀.env = .standard ∨ m₀.env = Environment.standard.push) (hm : Session m₀ inputs m)
    (i : Input) :
    (∀ s, Reaches Moment.next ⟨.source i, [], m⟩ s →
      (∀ f ∈ s.machine.env.frames, ∀ x ∈ reservedNames, x ∉ f.keys) ∧
      (∀ f ∈ s.machine.env.frames, ∀ x g, (x, Value.function g) ∈ f →
        ∀ p ∈ g.params, p ∉ reservedNames) ∧
      ∀ x ∈ reservedNames, ∀ fuel,
        eval (fuel + 1) (.sym x) s.machine = .done (.error (.undefinedSymbol x)) s.machine) ∧
    (∀ r m', (∃ fuel, i.evaluate fuel m = .done r m') ↔
      Reaches Moment.next ⟨.source i, [], m⟩ ⟨.result r, [], m'⟩) ∧
    ∀ fuel g m', i.evaluate fuel m = .done (.ok (.function g)) m' →
      ∀ p ∈ g.params, p ∉ reservedNames := by
  have hkept := kept_within .unreserved
  have hstart : m₀.Within .unreserved :=
    Machine.within_of_standard h₀ fun b => ⟨b.name_notMem_reservedNames, trivial⟩
  have hwithin : ∀ s, Reaches Moment.next ⟨.source i, [], m⟩ s →
      s.Within .unreserved (Machine.Within .unreserved) := by
    intro s hs
    have hbinds := hkept.session (fun _ _ _ _ _ _ => trivial) hstart hm
    exact hkept.input (fun _ _ _ _ => trivial) hbinds hs
  refine ⟨fun s hs => ?_, fun r m' => Input.ends_iff, fun fuel g m' he => ?_⟩
  · have hbinds := (hwithin s hs).machine
    refine ⟨fun f hf x hx hkey => ?_, fun f hf x g hg => ?_, fun x hx fuel => ?_⟩
    · obtain ⟨b, hb, rfl⟩ := List.mem_map.1 hkey
      exact (hbinds f hf b hb).1 hx
    · exact (hbinds f hf _ hg).2
    · exact eval_reserved hbinds hx fuel
  · exact (hwithin _ (Input.ends_iff.1 ⟨fuel, he⟩)).focus _ rfl

/-- A function that returns its argument. -/
def identity : Value := .function ⟨0, ["x"], .sym "x"⟩

/-- The builtins, and a frame in which `f` is the identity. -/
def withIdentity : Machine :=
  { env := Environment.standard.push.define "f" identity, nextId := 1 }

/-- In a frame of the session, `f` is defined and a function of `if` is refused; then `f` is called
with itself. The moment is the one at which its parameter has been bound. -/
theorem reserved_names_never_bound_in_call :
    ∃ m s, Session { env := Environment.standard.push }
        [⟨true, .both 30, "(let f (fn (x) x))"⟩, ⟨false, .both 30, "(fn (if) f)"⟩] m ∧
      Reaches Moment.next ⟨.source ⟨true, .both 30, "(f f)"⟩, [], m⟩ s ∧
      s.machine.env.frames.map Frame.keys = [["x"], ["f"], Environment.standard.inner.keys] ∧
      (∀ f ∈ s.machine.env.frames, ∀ x ∈ reservedNames, x ∉ f.keys) ∧
      eval 1 (.sym "if") s.machine = .done (.error (.undefinedSymbol "if")) s.machine := by
  have hlet : Interpreter.read (.both 30) "(let f (fn (x) x))" { env := .push .standard } =
    .done (.ok (.program [.branch [.sym "let", .sym "f",
      .branch [.sym "fn", .branch [.sym "x"], .sym "x"]]])) { env := .push .standard } := rfl
  have hfn : Interpreter.read (.both 30) "(fn (if) f)" withIdentity =
    .done (.ok (.program [.branch [.sym "fn", .branch [.sym "if"], .sym "f"]])) withIdentity := rfl
  have hcall : Interpreter.read (.both 30) "(f f)" withIdentity =
    .done (.ok (.program [.branch [.sym "f", .sym "f"]])) withIdentity := rfl
  have hfirst : Input.evaluate ⟨true, .both 30, "(let f (fn (x) x))"⟩ 4
    { env := Environment.standard.push } = .done (.ok identity) withIdentity :=
    (Action.bind_of_ok hlet).trans rfl
  have hsecond : Input.evaluate ⟨false, .both 30, "(fn (if) f)"⟩ 4 withIdentity =
    .done (.error (.reservedName "if")) withIdentity := (Action.bind_of_ok hfn).trans rfl
  have hsession := Session.cons hfirst (.cons hsecond .nil)
  have hnext : Moment.next ⟨.source ⟨true, .both 30, "(f f)"⟩, [], withIdentity⟩ =
      some ⟨.result (.ok .undefined), [.following [.branch [.sym "f", .sym "f"]]],
        withIdentity⟩ := by
    simp only [Moment.next, Moment.ofSource, hcall]
    rfl
  have hreach : Reaches Moment.next ⟨.source ⟨true, .both 30, "(f f)"⟩, [], withIdentity⟩
      ⟨.params [identity] 1 [] (.sym "x"), [.release 2, .following []],
        withIdentity.push.define "x" identity⟩ := by
    refine .head hnext (.head rfl (.head rfl ?_))
    exact .head rfl (.head rfl (.head rfl (.head rfl (.single rfl))))
  obtain ⟨hthroughout, -⟩ :=
    reserved_names_never_bound (.inr rfl) hsession ⟨true, .both 30, "(f f)"⟩
  obtain ⟨hkeys, -, hsymbol⟩ := hthroughout _ hreach
  exact ⟨_, _, hsession, hreach, rfl, hkeys, hsymbol "if" (by decide) 0⟩

end Lisplet
