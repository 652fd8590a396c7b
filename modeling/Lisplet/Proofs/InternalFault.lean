import Lisplet.Proofs.Render
import Lisplet.Proofs.Throughout

/-!
# Internal faults

Two faults say that evaluation came upon something it has no rule for: a node that is missing, or a
token that is no atom. No source can cause them. The scanner makes tokens of four kinds besides
parentheses, reading makes atoms of these only and leaves no hole, and whatever function is bound,
passed on or returned has such a tree for its body. A missing argument is undefined; so no value
that came from outside, or that is no value at all, turns up either.

* `Fault.isInternal`: the two faults;
* `Value.Proper`: the values of the language, whose functions have bodies that can be written;
* `Vocabulary.written`: the trees that can be written, and the proper values;
* `source_never_internal`: throughout a session, there is nothing else.
-/

namespace Lisplet

open StateTransition

/-- Whether a fault is that of an evaluation which has no rule for what it came upon. -/
def Fault.isInternal : Fault → Bool
  | .unreadable _ => false
  | .undefinedSymbol _ => false
  | .quoted => false
  | .malformed _ => false
  | .reservedName _ => false
  | .notCallable _ => false
  | .missingNode _ => true
  | .strayToken _ => true

/-- A value of the language itself. A function has a body that can be written: no node is missing
in it, and its atoms are lexemes. -/
def Value.Proper : Value → Prop
  | .undefined => True
  | .number _ => True
  | .string _ => True
  | .bool _ => True
  | .function f => f.body.allTokens Token.isLexeme = true
  | .builtin _ => True
  | .foreign _ => False
  | .absent => False

/-- The trees that can be written, and the proper values. -/
def Vocabulary.written : Vocabulary where
  node n := n.allTokens Token.isLexeme = true
  name _ := True
  value := Value.Proper
  node_of_mem h hn := Node.allTokensOf_iff.1 h _ hn
  name_of_node _ _ := trivial
  value_undefined := trivial
  value_number _ := trivial
  value_string _ := trivial
  value_apply b _ hargs :=
    b.apply_induction trivial (fun _ => trivial) (fun _ => trivial) (fun _ => trivial) hargs
  value_function := by simp [Value.Proper]

/-- A token that can stand as an atom has a meaning. -/
theorem Token.hasMeaning_of_isLexeme {kind : TokenKind} {text : String}
    (h : Token.isLexeme ⟨kind, text⟩ = true) : kind.hasMeaning = true := by
  cases kind <;> first | rfl | cases h

/-- No tree that can be written explains an internal fault. -/
theorem isInternal_of_explains {e : Fault} (h : Vocabulary.written.pairing.Explains e) :
    e.isInternal = false := by
  cases e with
  | missingNode hole =>
    obtain ⟨_, hnode, -⟩ := h
    cases hnode
  | strayToken kind =>
    obtain ⟨hkind, text, _, hnode, -⟩ := h
    have hmeaning : kind.hasMeaning = true := Token.hasMeaning_of_isLexeme hnode
    rw [hmeaning] at hkind
    cases hkind
  | _ => rfl

/-- Whatever the limits, a source is read as a tree that can be written. -/
theorem Input.within_written (i : Input) : i.Within .written := by
  intro m root m' hread
  cases ht : tokenize i.limits.tokenizerReads i.source with
  | error e =>
    rw [Interpreter.read_error ht] at hread
    cases hread
  | ok ts =>
    obtain ⟨_, -, hok⟩ := Interpreter.read_ok ht m
    rw [hok] at hread
    cases hread
    exact Bool.and_eq_true_iff.2 ⟨rfl, Node.isLexeme_forestOf ht _⟩

/-- **Sources never reach an internal fault.** Inputs are evaluated one after the other, under any
limits and whether they fail or not, on a machine that starts with the builtins. If the next one
fails, then with a fault that is not internal; if it has a value, then a proper one; and at every
moment of it, all values in all frames are proper. The moments are those of the evaluation: they
lead to its result if it has one. -/
theorem source_never_internal {m₀ m : Machine} {inputs : List Input}
    (h₀ : m₀.env = .standard ∨ m₀.env = Environment.standard.push) (hm : Session m₀ inputs m)
    (i : Input) :
    (∀ fuel e m', i.evaluate fuel m = .done (.error e) m' → e.isInternal = false) ∧
    (∀ fuel v m', i.evaluate fuel m = .done (.ok v) m' → v.Proper) ∧
    (∀ s, Reaches Moment.next ⟨.source i, [], m⟩ s →
      ∀ f ∈ s.machine.env.frames, ∀ b ∈ f, b.2.Proper) ∧
    ∀ r m', (∃ fuel, i.evaluate fuel m = .done r m') ↔
      Reaches Moment.next ⟨.source i, [], m⟩ ⟨.result r, [], m'⟩ := by
  have hkept := kept_within .written
  have hstart : m₀.Within .written :=
    Machine.within_of_standard h₀ fun _ => ⟨trivial, trivial⟩
  have hbinds : m.Within .written := hkept.session (fun i _ => i.within_written) hstart hm
  have hwithin : ∀ s, Reaches Moment.next ⟨.source i, [], m⟩ s →
      s.Within .written (Machine.Within .written) := fun s => hkept.input i.within_written hbinds
  refine ⟨fun fuel e m' he => ?_, fun fuel v m' he => ?_, fun s hs f hf b hb => ?_, fun r m' => ?_⟩
  · rcases hkept.explains i.within_written hbinds he with ⟨s, rfl⟩ | hexplains
    · rfl
    · exact isInternal_of_explains hexplains
  · exact (hwithin _ (Input.ends_iff.1 ⟨fuel, he⟩)).focus v rfl
  · exact ((hwithin s hs).machine f hf b hb).2
  · exact Input.ends_iff

/-- The builtins, and among them `f`, which returns its argument. -/
def withReturner : Machine :=
  { env := Environment.standard.define "f" (.function ⟨0, ["x"], .sym "x"⟩), nextId := 1 }

/-- The first source is cut after nine tokens, in mid-form, and still defines `f`. The second one
calls it with a quoted symbol and fails. Then a call without an argument binds the parameter to
undefined, and has that value. -/
theorem source_never_internal_of_cut_source :
    ∃ m s, Session {}
        [⟨true, ⟨30, 9⟩, "(let f (fn (x) x) y (z"⟩, ⟨false, .both 30, "(f 'a)"⟩] m ∧
      Input.evaluate ⟨false, .both 30, "(f 'a)"⟩ 4 m = .done (.error .quoted) m ∧
      Fault.isInternal .quoted = false ∧
      Input.evaluate ⟨true, .both 30, "(f)"⟩ 4 m = .done (.ok .undefined) m ∧
      Value.Proper .undefined ∧
      Reaches Moment.next ⟨.source ⟨true, .both 30, "(f)"⟩, [], m⟩ s ∧
      s.machine.env.inner = [("x", .undefined)] ∧
      ∀ f ∈ s.machine.env.frames, ∀ b ∈ f, b.2.Proper := by
  have hlet : Interpreter.read ⟨30, 9⟩ "(let f (fn (x) x) y (z" {} =
    .done (.ok (.program [.branch [.sym "let", .sym "f",
      .branch [.sym "fn", .branch [.sym "x"], .sym "x"]]])) {} := rfl
  have hquote : Interpreter.read (.both 30) "(f 'a)" withReturner =
    .done (.ok (.program [.branch [.sym "f", .atom ⟨.quote, "a"⟩]])) withReturner := rfl
  have hcall : Interpreter.read (.both 30) "(f)" withReturner =
    .done (.ok (.program [.branch [.sym "f"]])) withReturner := rfl
  have hfirst : Input.evaluate ⟨true, ⟨30, 9⟩, "(let f (fn (x) x) y (z"⟩ 4 {} =
    .done (.ok (.function ⟨0, ["x"], .sym "x"⟩)) withReturner := (Action.bind_of_ok hlet).trans rfl
  have hsecond : Input.evaluate ⟨false, .both 30, "(f 'a)"⟩ 4 withReturner =
    .done (.error .quoted) withReturner := (Action.bind_of_ok hquote).trans rfl
  have hthird : Input.evaluate ⟨true, .both 30, "(f)"⟩ 4 withReturner =
    .done (.ok .undefined) withReturner := (Action.bind_of_ok hcall).trans rfl
  have hsession := Session.cons hfirst (.cons hsecond .nil)
  have hnext : Moment.next ⟨.source ⟨true, .both 30, "(f)"⟩, [], withReturner⟩ =
      some ⟨.result (.ok .undefined), [.following [.branch [.sym "f"]]], withReturner⟩ := by
    simp only [Moment.next, Moment.ofSource, hcall]
    rfl
  have hreach : Reaches Moment.next ⟨.source ⟨true, .both 30, "(f)"⟩, [], withReturner⟩
      ⟨.params [] 1 [] (.sym "x"), [.release 1, .following []],
        withReturner.push.define "x" .undefined⟩ := by
    refine .head hnext (.head rfl (.head rfl ?_))
    exact .head rfl (.head rfl (.single rfl))
  obtain ⟨hfault, -⟩ := source_never_internal (.inl rfl) hsession ⟨false, .both 30, "(f 'a)"⟩
  obtain ⟨-, hvalue, hframes, -⟩ :=
    source_never_internal (.inl rfl) hsession ⟨true, .both 30, "(f)"⟩
  exact ⟨_, _, hsession, hsecond, hfault _ _ _ hsecond, hthird, hvalue _ _ _ hthird, hreach, rfl,
    hframes _ hreach⟩

end Lisplet
