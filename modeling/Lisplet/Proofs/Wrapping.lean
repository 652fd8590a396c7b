import Lisplet.Proofs.Layers

/-!
# Wrapping in a sequence

The branches of a conditional and the bodies of functions are evaluated in frames of their own,
which are released right after. So nothing changes if such a node is wrapped in a sequence, which is
evaluated in one more frame. The wrapped program makes functions with other bodies and runs on a
deeper stack: what it defines goes to the innermost of two frames, where the original has one. The
two frames are a group of the layers of `Parallel`, and functions go together if their bodies come
from the same tree by wrapping.

* `Node.isScoped`: the places where a node may be wrapped, and `Node.wrap`: wrapping at some;
* `Node.Twin`: two trees that come from one tree by wrapping;
* `Pairing.wrapping`: such trees go together, and functions with such bodies;
* `wrapping_preserves_meaning`: the same ending, the same lines printed, the same report.
-/

namespace Lisplet

/-! ### Wrapping -/

namespace Node

/-- Whether a position of a branch is that of a branch of a conditional or of the body of a
function. -/
def isScoped (cs : List Node) (position : Nat) : Bool :=
  match (Node.branch cs).head?.bind Form.ofName?, cs.length, position with
  | some .conditional, 3, 2 => true
  | some .conditional, 4, 2 => true
  | some .conditional, 4, 3 => true
  | some .function, 3, 2 => true
  | _, _, _ => false

/-- A node, or the sequence of this one node. -/
def wrapIf (wrapped : Bool) (n : Node) : Node := if wrapped then program [n] else n

mutual

/-- Wrap the chosen nodes of a tree, of those that are evaluated in frames of their own. A node is
chosen by its place: the positions that lead to it from the root. -/
def wrap (chosen : List Nat → Bool) : Node → Node
  | .hole h => .hole h
  | .atom t => .atom t
  | .branch cs => .branch (wrapAll chosen (isScoped cs) 0 cs)

/-- Wrap the chosen nodes of a branch from a position on. -/
def wrapAll (chosen : List Nat → Bool) (inScope : Nat → Bool) (position : Nat) :
    List Node → List Node
  | [] => []
  | n :: rest =>
    wrapIf (inScope position && chosen [position]) (wrap (fun p => chosen (position :: p)) n) ::
      wrapAll chosen inScope (position + 1) rest

end

mutual

/-- Nothing is wrapped if nothing is chosen. -/
theorem wrap_none : ∀ n : Node, wrap (fun _ => false) n = n
  | .hole _ => rfl
  | .atom _ => rfl
  | .branch cs => congrArg Node.branch (wrapAll_none (isScoped cs) 0 cs)

theorem wrapAll_none (inScope : Nat → Bool) (position : Nat) :
    ∀ cs : List Node, wrapAll (fun _ => false) inScope position cs = cs
  | [] => rfl
  | n :: cs => by
    rw [wrapAll, Bool.and_false, wrapIf, if_neg Bool.false_ne_true, wrap_none n,
      wrapAll_none inScope (position + 1) cs]

end

/-! ### Twins -/

/-- Two trees that come from one tree by wrapping. -/
def Twin (k₁ k₂ : Node) : Prop := ∃ n chosen₁ chosen₂, k₁ = wrap chosen₁ n ∧ k₂ = wrap chosen₂ n

/-- Two trees that come from one tree by wrapping, and may themselves be wrapped. -/
def ScopedTwin (k₁ k₂ : Node) : Prop :=
  ∃ e₁ e₂ wrapped₁ wrapped₂, Twin e₁ e₂ ∧ k₁ = wrapIf wrapped₁ e₁ ∧ k₂ = wrapIf wrapped₂ e₂

variable {n k : Node}

theorem twin_wrap (n : Node) (chosen₁ chosen₂ : List Nat → Bool) :
    Twin (wrap chosen₁ n) (wrap chosen₂ n) :=
  ⟨n, chosen₁, chosen₂, rfl, rfl⟩

theorem twin_self_wrap (n : Node) (chosen : List Nat → Bool) : Twin n (wrap chosen n) :=
  ⟨n, fun _ => false, chosen, (wrap_none n).symm, rfl⟩

theorem Twin.symm (h : Twin n k) : Twin k n := by
  obtain ⟨t, chosen₁, chosen₂, h₁, h₂⟩ := h
  exact ⟨t, chosen₂, chosen₁, h₂, h₁⟩

theorem Twin.toScoped (h : Twin n k) : ScopedTwin n k := ⟨n, k, false, false, h, rfl, rfl⟩

theorem ScopedTwin.refl (n : Node) : ScopedTwin n n :=
  Twin.toScoped ⟨n, fun _ => false, fun _ => false, (wrap_none n).symm, (wrap_none n).symm⟩

theorem scopedTwin_wrapIf (wrapped₁ wrapped₂ : Bool) (n : Node)
    (chosen₁ chosen₂ : List Nat → Bool) :
    ScopedTwin (wrapIf wrapped₁ (wrap chosen₁ n)) (wrapIf wrapped₂ (wrap chosen₂ n)) :=
  ⟨_, _, wrapped₁, wrapped₂, twin_wrap n chosen₁ chosen₂, rfl, rfl⟩

theorem Twin.hole {h : Hole} (ht : Twin (.hole h) k) : k = .hole h := by
  obtain ⟨n, chosen₁, chosen₂, h₁, rfl⟩ := ht
  cases n <;> cases h₁
  rfl

theorem Twin.atom {t : Token} (ht : Twin (.atom t) k) : k = .atom t := by
  obtain ⟨n, chosen₁, chosen₂, h₁, rfl⟩ := ht
  cases n <;> cases h₁
  rfl

theorem twin_wrapAll (chosen₁ chosen₂ : List Nat → Bool) {inScope : Nat → Bool}
    (hfree : ∀ position, inScope position = false) (position : Nat) (cs : List Node) :
    List.Forall₂ Twin (wrapAll chosen₁ inScope position cs)
      (wrapAll chosen₂ inScope position cs) := by
  induction cs generalizing position with
  | nil => exact .nil
  | cons n cs ih =>
    rw [wrapAll, wrapAll, hfree, Bool.false_and, Bool.false_and]
    exact .cons (twin_wrap n _ _) (ih (position + 1))

/-- Where a node may be wrapped, the branch is a conditional or a function. -/
theorem shape_of_isScoped {cs : List Node} {position : Nat} (h : isScoped cs position = true) :
    (∃ c yes, cs = [.sym Form.conditional.name, c, yes]) ∨
      (∃ c yes no, cs = [.sym Form.conditional.name, c, yes, no]) ∨
      ∃ params body, cs = [.sym Form.function.name, params, body] := by
  have hhead : ∀ f, (Node.branch cs).head?.bind Form.ofName? = some f →
      ∃ rest, cs = .sym f.name :: rest := by
    intro f hf
    cases cs with
    | nil => cases hf
    | cons head rest =>
      obtain ⟨x, hx, hf⟩ := Option.bind_eq_some_iff.1 hf
      exact ⟨rest, by rw [eq_sym_of_symbol? hx, Form.name_of_ofName? hf]⟩
  have hparts : ∀ f k, (Node.branch cs).head?.bind Form.ofName? = some f → cs.length = k + 1 →
      ∃ rest, cs = .sym f.name :: rest ∧ rest.length = k := by
    intro f k hf hlength
    obtain ⟨rest, rfl⟩ := hhead f hf
    exact ⟨rest, rfl, Nat.succ.inj hlength⟩
  unfold isScoped at h
  split at h
  · rename_i hf hlength
    obtain ⟨rest, rfl, hrest⟩ := hparts _ _ hf hlength
    obtain ⟨c, yes, rfl⟩ := List.length_eq_two.1 hrest
    exact .inl ⟨c, yes, rfl⟩
  · rename_i hf hlength
    obtain ⟨rest, rfl, hrest⟩ := hparts _ _ hf hlength
    obtain ⟨c, yes, no, rfl⟩ := List.length_eq_three.1 hrest
    exact .inr (.inl ⟨c, yes, no, rfl⟩)
  · rename_i hf hlength
    obtain ⟨rest, rfl, hrest⟩ := hparts _ _ hf hlength
    obtain ⟨c, yes, no, rfl⟩ := List.length_eq_three.1 hrest
    exact .inr (.inl ⟨c, yes, no, rfl⟩)
  · rename_i hf hlength
    obtain ⟨rest, rfl, hrest⟩ := hparts _ _ hf hlength
    obtain ⟨params, body, rfl⟩ := List.length_eq_two.1 hrest
    exact .inr (.inr ⟨params, body, rfl⟩)
  · cases h

theorem parts_wrapAll (chosen₁ chosen₂ : List Nat → Bool) (cs : List Node) :
    Parts Twin ScopedTwin (wrapAll chosen₁ (isScoped cs) 0 cs)
      (wrapAll chosen₂ (isScoped cs) 0 cs) := by
  by_cases hfree : ∀ position, isScoped cs position = false
  · exact .all (twin_wrapAll chosen₁ chosen₂ hfree 0 cs)
  · obtain ⟨position, hposition⟩ := not_forall.1 hfree
    rcases shape_of_isScoped (Bool.eq_true_of_not_eq_false hposition) with
      ⟨c, yes, rfl⟩ | ⟨c, yes, no, rfl⟩ | ⟨params, body, rfl⟩
    · exact .conditional (twin_wrap c _ _) (scopedTwin_wrapIf _ _ yes _ _)
    · exact .alternative (twin_wrap c _ _) (scopedTwin_wrapIf _ _ yes _ _)
        (scopedTwin_wrapIf _ _ no _ _)
    · exact .function (twin_wrap params _ _) (scopedTwin_wrapIf _ _ body _ _)

theorem Twin.branch {ns : List Node} (h : Twin (.branch ns) k) :
    ∃ ks, k = .branch ks ∧ Parts Twin ScopedTwin ns ks := by
  obtain ⟨n, chosen₁, chosen₂, h₁, rfl⟩ := h
  cases n <;> cases h₁
  exact ⟨_, rfl, parts_wrapAll chosen₁ chosen₂ _⟩

end Node

/-- Two values are the same, or functions whose bodies come from one tree by wrapping. -/
def Value.Twin (v w : Value) : Prop :=
  v = w ∨ ∃ id params n k, v = .function ⟨id, params, n⟩ ∧ w = .function ⟨id, params, k⟩ ∧
    n.ScopedTwin k

theorem Value.Twin.sameButBody {v w : Value} (h : v.Twin w) : v.SameButBody w := by
  rcases h with rfl | ⟨id, params, n, k, rfl, rfl, -⟩
  · exact Or.inl rfl
  · exact Or.inr ⟨id, params, n, k, rfl, rfl⟩

/-- Trees that come from one tree by wrapping, and functions with such bodies. -/
def Pairing.wrapping : Pairing where
  node := Node.Twin
  body := Node.ScopedTwin
  name _ := True
  value := Value.Twin
  body_of_node h := h.toScoped
  hole h := h.hole
  atom h := h.atom
  branch h := h.branch
  name_of_node _ _ := trivial
  value_undefined := Or.inl rfl
  value_number _ := Or.inl rfl
  value_string _ := Or.inl rfl
  value_apply b _ _ h := b.apply_rel (fun h => h.sameButBody) (Or.inl rfl) (fun _ => Or.inl rfl)
    (fun _ => Or.inl rfl) (fun _ => Or.inl rfl) h
  value_function := by
    intro id params n k
    constructor
    · rintro (h | ⟨_, _, _, _, h₁, h₂, h⟩)
      · cases h
        exact ⟨fun _ _ => trivial, .refl n⟩
      · cases h₁
        cases h₂
        exact ⟨fun _ _ => trivial, h⟩
    · rintro ⟨-, h⟩
      exact Or.inr ⟨id, params, n, k, rfl, rfl, h⟩
  value_cases h := h.sameButBody

/-! ### One more frame -/

section

variable {fuel : Nat} {m m' : Machine} {r : Except Fault Value}

theorem eval_program_singleton (fuel : Nat) (n : Node) :
    eval (fuel + 1) (.program [n]) = Action.inFrame (eval fuel n) := by
  rw [eval_program, Eval.sequence]
  exact congrArg Action.inFrame (bind_pure (eval fuel n))

/-- A node that is wrapped ends in a frame as it does by itself. -/
theorem inFrame_of_eval_wrapIf {wrapped : Bool} {n : Node}
    (h : eval fuel (n.wrapIf wrapped) m = .done r m') :
    Action.inFrame^[wrapped.toNat] (eval fuel n) m = .done r m' := by
  cases wrapped with
  | false => exact h
  | true =>
    cases fuel with
    | zero => cases h
    | succ fuel =>
      have h : eval (fuel + 1) (.program [n]) m = .done r m' := h
      rw [eval_program_singleton] at h
      obtain ⟨m₁, h₁, rfl⟩ := Action.inFrame_eq_done h
      exact Action.inFrame_of_done (eval_mono (Nat.le_succ fuel) h₁)

theorem eval_wrapIf_of_inFrame {wrapped : Bool} {n : Node}
    (h : Action.inFrame^[wrapped.toNat] (eval fuel n) m = .done r m') :
    eval (fuel + 1) (n.wrapIf wrapped) m = .done r m' := by
  cases wrapped with
  | false => exact eval_mono (Nat.le_succ fuel) h
  | true =>
    show eval (fuel + 1) (.program [n]) m = _
    rw [eval_program_singleton]
    exact h

end

/-- Evaluating trees that come from one tree by wrapping. A wrapped node takes one step more, so
twice the steps are enough. -/
theorem follows_eval_twin {fuel : Nat} {n k : Node} (h : n.Twin k) :
    (Parallel.correspondence .wrapping).Follows Value.Twin (eval fuel n) (eval (2 * fuel) k) := by
  refine (Parallel.correspondence .wrapping).follows_eval (d := 1) ?_ (by omega) h
  -- Only what is done in a frame may be wrapped, on either side.
  rintro a b hrec _ _ ⟨e₁, e₂, wrapped₁, wrapped₂, he, rfl, rfl⟩ i j m₁ m₂ hopen n₁ n₂ r n₁' hn h
  obtain ⟨s, n₂', hy, hn', hs⟩ := follows_nested (hrec e₁ e₂ he) wrapped₁.toNat wrapped₂.toNat
    hopen hn (inFrame_of_eval_wrapIf h)
  exact ⟨s, n₂', eval_wrapIf_of_inFrame hy, hn', hs⟩

/-! ### What cannot be told apart -/

/-- Two results that are reported in the same way: the same fault, or values of the same kind with
the same text. -/
def SameReport : Except Fault Value → Except Fault Value → Prop
  | .ok v, .ok w => v.kind = w.kind ∧ v.text = w.text
  | .error e, .error e' => e = e'
  | _, _ => False

theorem SameReport.of_matches {r s : Except Fault Value}
    (h : Pairing.wrapping.Matches Value.Twin r s) : SameReport r s := by
  cases r with
  | error e =>
    cases s with
    | error e' => exact h.1
    | ok w => cases h
  | ok v =>
    cases s with
    | error e' => cases h
    | ok w => exact ⟨(Value.Twin.sameButBody h).kind_eq, (Value.Twin.sameButBody h).text_eq⟩

/-- Trees that come from one tree by wrapping end alike on any machine. -/
theorem evaluates_twin {n k : Node} (h : n.Twin k) {m m₁ : Machine} {r : Except Fault Value}
    (he : Evaluates n m r m₁) :
    ∃ s m₂, Evaluates k m s m₂ ∧ SameReport r s ∧ m₁.printed = m₂.printed := by
  obtain ⟨fuel, he⟩ := he
  obtain ⟨s, m₂, hk, hm, hs⟩ :=
    follows_eval_twin h _ (Parallel.refl (fun _ => Or.inl rfl) m) he
  exact ⟨s, m₂, ⟨_, hk⟩, .of_matches hs, hm.printed⟩

/-- A sequence in any number of nested frames ends in the same way, and leaves the same behind. -/
theorem sequence_nested {fuel : Nat} {es : List Node} {m m₁ : Machine} {r : Except Fault Value}
    {p : Nat} (q : Nat)
    (h : Action.inFrame (Action.inFrame^[p] (Eval.sequence (eval fuel) .undefined es)) m =
      .done r m₁) :
    ∃ m₂, Action.inFrame (Action.inFrame^[q] (Eval.sequence (eval fuel) .undefined es)) m =
      .done r m₂ ∧ m₁.Alike m₂ := by
  have hrec := Vocabulary.follows_eval
    (Parallel.correspondence Vocabulary.everything.pairing) (Nat.le_refl fuel)
  have hes : List.Forall₂ Vocabulary.everything.pairing.node es es :=
    Vocabulary.pairing_nodes fun _ _ => trivial
  -- Only equal values go together here, so the frames that are left are equal as well.
  have hsequence := (Parallel.correspondence _).follows_sequence hrec hes
    (v := .undefined) (w := .undefined) ⟨trivial, rfl⟩
  obtain ⟨s, m₂, hs, hm, hmatch⟩ := (follows_nested hsequence p q).inFrame _
    (Parallel.refl (fun _ => ⟨trivial, rfl⟩) m) h
  have halike : m₁.Alike m₂ :=
    ⟨Environment.eq_of_frames_eq (hm.layered.eq_of_frames fun _ _ h => h.2), hm.nextId, hm.printed⟩
  cases r with
  | error e =>
    cases s with
    | error e' =>
      cases hmatch.1
      exact ⟨m₂, hs, halike⟩
    | ok w => cases hmatch
  | ok v =>
    cases s with
    | error e' => cases hmatch
    | ok w =>
      cases hmatch.2
      exact ⟨m₂, hs, halike⟩

theorem evaluates_program_program {es : List Node} {m m₁ : Machine} {r : Except Fault Value}
    (h : Evaluates (.program es) m r m₁) :
    ∃ m₂, Evaluates (.program [.program es]) m r m₂ ∧ m₁.Alike m₂ := by
  obtain ⟨fuel, h⟩ := h
  cases fuel with
  | zero => cases h
  | succ fuel =>
    obtain ⟨m₂, h₂, hm⟩ := sequence_nested (p := 0) 1 h
    refine ⟨m₂, ⟨fuel + 2, ?_⟩, hm⟩
    rw [eval_program_singleton, eval_program]
    exact h₂

theorem evaluates_program_of_program {es : List Node} {m m₁ : Machine} {r : Except Fault Value}
    (h : Evaluates (.program [.program es]) m r m₁) :
    ∃ m₂, Evaluates (.program es) m r m₂ ∧ m₁.Alike m₂ := by
  obtain ⟨fuel, h⟩ := h
  have h := eval_mono (Nat.le_add_right fuel 2) h
  rw [eval_program_singleton, eval_program] at h
  obtain ⟨m₂, h₂, hm⟩ := sequence_nested (p := 1) 0 h
  exact ⟨m₂, ⟨fuel + 1, h₂⟩, hm⟩

/-- **Wrapping in a sequence preserves meaning.** Wrap any of the nodes of a tree that are branches
of a conditional or bodies of functions. On any machine, the tree that is left ends if and only if
the original does; then both print the same lines and fail with the same fault, or have values of
the same kind and with the same text. If a whole sequence is wrapped in another one, then even the
values are the same, and what is left of the machines. -/
theorem wrapping_preserves_meaning :
    (∀ (n : Node) (chosen : List Nat → Bool) (m : Machine),
      ((∃ r m₁, Evaluates n m r m₁) ↔ ∃ s m₂, Evaluates (n.wrap chosen) m s m₂) ∧
      ∀ r s m₁ m₂, Evaluates n m r m₁ → Evaluates (n.wrap chosen) m s m₂ →
        SameReport r s ∧ m₁.printed = m₂.printed) ∧
    ∀ (es : List Node) (m : Machine),
      ((∃ r m₁, Evaluates (.program es) m r m₁) ↔
        ∃ s m₂, Evaluates (.program [.program es]) m s m₂) ∧
      ∀ r s m₁ m₂, Evaluates (.program es) m r m₁ → Evaluates (.program [.program es]) m s m₂ →
        r = s ∧ m₁.Alike m₂ := by
  refine ⟨fun n chosen m => ⟨⟨?_, ?_⟩, ?_⟩, fun es m => ⟨⟨?_, ?_⟩, ?_⟩⟩
  · rintro ⟨r, m₁, h⟩
    obtain ⟨s, m₂, h₂, -⟩ := evaluates_twin (n.twin_self_wrap chosen) h
    exact ⟨s, m₂, h₂⟩
  · rintro ⟨s, m₂, h⟩
    obtain ⟨r, m₁, h₁, -⟩ := evaluates_twin (n.twin_self_wrap chosen).symm h
    exact ⟨r, m₁, h₁⟩
  · intro r s m₁ m₂ h₁ h₂
    obtain ⟨s', m₂', h₂', hsame⟩ := evaluates_twin (n.twin_self_wrap chosen) h₁
    obtain ⟨rfl, rfl⟩ := h₂'.unique h₂
    exact hsame
  · rintro ⟨r, m₁, h⟩
    obtain ⟨m₂, h₂, -⟩ := evaluates_program_program h
    exact ⟨r, m₂, h₂⟩
  · rintro ⟨s, m₂, h⟩
    obtain ⟨m₁, h₁, -⟩ := evaluates_program_of_program h
    exact ⟨s, m₁, h₁⟩
  · intro r s m₁ m₂ h₁ h₂
    obtain ⟨m₂', h₂', hm⟩ := evaluates_program_program h₁
    obtain ⟨rfl, rfl⟩ := h₂'.unique h₂
    exact ⟨rfl, hm⟩

/-- The expressions `(let f (fn (x) (let y (fn () x))))`, `(if (! "") (= f (f "a")))` and
`(print f)`. -/
def renewal : List Node :=
  [.branch [.sym "let", .sym "f", .branch [.sym "fn", .branch [.sym "x"],
      .branch [.sym "let", .sym "y", .branch [.sym "fn", .branch [], .sym "x"]]]],
    .branch [.sym "if", .branch [.sym "!", .atom ⟨.string, ""⟩],
      .branch [.sym "=", .sym "f", .branch [.sym "f", .atom ⟨.string, "a"⟩]]],
    .branch [.sym "print", .sym "f"]]

/-- The function that is made by the call is printed and returned. It has another body if
everything that can be wrapped is; but if the sequence is wrapped as a whole it has the same. -/
theorem wrapping_preserves_meaning_of_renewal :
    ∃ m₁ m₂ m₃,
      Evaluates (.program (renewal ++ [.sym "f"])) {} (.ok (.function ⟨1, [], .sym "x"⟩)) m₁ ∧
      Evaluates (Node.wrap (fun _ => true) (.program (renewal ++ [.sym "f"]))) {}
        (.ok (.function ⟨1, [], .program [.sym "x"]⟩)) m₂ ∧
      m₁.printed = ["[Function: fn]"] ∧ m₁.printed = m₂.printed ∧
      SameReport (.ok (.function ⟨1, [], .sym "x"⟩))
        (.ok (.function ⟨1, [], .program [.sym "x"]⟩)) ∧
      Evaluates (.program [.program (renewal ++ [.sym "f"])]) {}
        (.ok (.function ⟨1, [], .sym "x"⟩)) m₃ ∧
      m₁.Alike m₃ := by
  have h₁ : Evaluates (.program (renewal ++ [.sym "f"])) {} (.ok (.function ⟨1, [], .sym "x"⟩))
    { nextId := 2, printed := ["[Function: fn]"] } := ⟨7, rfl⟩
  have h₂ : Evaluates (Node.wrap (fun _ => true) (.program (renewal ++ [.sym "f"]))) {}
    (.ok (.function ⟨1, [], .program [.sym "x"]⟩))
    { nextId := 2, printed := ["[Function: fn]"] } := ⟨9, rfl⟩
  have h₃ : Evaluates (.program [.program (renewal ++ [.sym "f"])]) {}
    (.ok (.function ⟨1, [], .sym "x"⟩))
    { nextId := 2, printed := ["[Function: fn]"] } := ⟨8, rfl⟩
  obtain ⟨hwrap, hsequence⟩ := wrapping_preserves_meaning
  obtain ⟨hsame, hprinted⟩ := (hwrap _ _ _).2 _ _ _ _ h₁ h₂
  obtain ⟨-, halike⟩ := (hsequence _ _).2 _ _ _ _ h₁ h₃
  exact ⟨_, _, _, h₁, h₂, rfl, hprinted, hsame, h₃, halike⟩

end Lisplet
