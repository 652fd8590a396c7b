import Lisplet.Proofs.Throughout

/-!
# Outer scopes

Definitions, steps and parameters are bound in the innermost frame; only an assignment reaches
further out. So a program without assignments changes no frame but the innermost, provided that no
function it can come by has an assignment in its body. Functions are made, passed on and stored all
the time, so this has to be carried along for the values in every frame: nodes without assignments,
and values without them, make a vocabulary.

* `Node.assignmentFree`: a tree without assignments, evaluated or not;
* `Vocabulary.assignmentFree`: such trees, and the functions whose bodies are such trees;
* `outerScope`: evaluation keeps every frame but the innermost, which is the index;
* `assignment_free_keeps_scopes`: nodes, sequences and calls without assignments.
-/

namespace Lisplet

/-! ### Nodes and values without assignments -/

mutual

/-- Whether no branch of a tree is headed by the symbol of an assignment. -/
def Node.assignmentFree : Node → Bool
  | .hole _ => true
  | .atom _ => true
  | .branch cs =>
    (Node.branch cs).head? != some Form.assignment.name && assignmentFreeAll cs

/-- Whether no branch in a list of trees is headed by the symbol of an assignment. -/
def Node.assignmentFreeAll : List Node → Bool
  | [] => true
  | n :: rest => assignmentFree n && assignmentFreeAll rest

end

theorem Node.assignmentFreeAll_iff {ns : List Node} :
    assignmentFreeAll ns = true ↔ ∀ n ∈ ns, n.assignmentFree = true := by
  induction ns with
  | nil => simp [assignmentFreeAll]
  | cons n ns ih => simp [assignmentFreeAll, ih]

theorem Node.assignmentFree_of_mem {ns : List Node} {n : Node}
    (h : (Node.branch ns).assignmentFree = true) (hn : n ∈ ns) : n.assignmentFree = true := by
  rw [assignmentFree, Bool.and_eq_true] at h
  exact assignmentFreeAll_iff.1 h.2 n hn

/-- A value is no function, or one without assignments in its body. -/
def Value.AssignmentFree : Value → Prop
  | .function f => f.body.assignmentFree = true
  | _ => True

/-- The nodes and values without assignments. -/
def Vocabulary.assignmentFree : Vocabulary where
  node n := n.assignmentFree = true
  name _ := True
  value := Value.AssignmentFree
  node_of_mem := Node.assignmentFree_of_mem
  name_of_node _ _ := trivial
  value_undefined := trivial
  value_number _ := trivial
  value_string _ := trivial
  value_apply b _ hargs :=
    b.apply_induction trivial (fun _ => trivial) (fun _ => trivial) (fun _ => trivial) hargs
  value_function := by simp [Value.AssignmentFree]

theorem not_assignmentFree_assignment (x : String) (e : Node) :
    ¬ Vocabulary.assignmentFree.node (.branch [.sym Form.assignment.name, .sym x, e]) := by
  intro h
  have hhead : (Node.branch [.sym Form.assignment.name, .sym x, e]).head? =
    some Form.assignment.name := rfl
  change Node.assignmentFree _ = true at h
  rw [Node.assignmentFree, hhead, bne_self_eq_false] at h
  cases h

/-! ### The frames around the innermost one -/

/-- A frame that is released on the frames it was opened on leaves the environment as it was. -/
theorem Environment.cutTo_of_outer_eq {e e' : Environment} (h : e'.outer = e.frames) :
    e'.cutTo e.depth = e := by
  have hdepth : e'.depth = e.depth + 1 := by
    rw [depth, h]
    rfl
  apply eq_of_frames_eq
  rw [frames_cutTo e.depth_pos hdepth, h]

/-- A machine without assignments in its functions, and the frames around its innermost one. -/
structure Machine.Encloses (outer : List Frame) (m : Machine) : Prop where
  within : m.Within .assignmentFree
  outer_eq : m.env.outer = outer

namespace Machine.Encloses

variable {outer : List Frame} {m m' : Machine}

theorem push (h : m.Encloses outer) : m.push.Encloses m.env.frames :=
  ⟨(kept_within _).push h.within, by rw [env_push]; rfl⟩

theorem env_release_eq (h : m'.Encloses m.env.frames) : (m'.release m.env.depth).env = m.env := by
  rw [env_release]
  exact Environment.cutTo_of_outer_eq h.outer_eq

theorem release (h : m.Encloses outer) (h' : m'.Encloses m.env.frames) :
    (m'.release m.env.depth).Encloses outer :=
  ⟨(kept_within _).release _ h'.within, by rw [h'.env_release_eq, h.outer_eq]⟩

end Machine.Encloses

/-- A run without assignments, compared with itself: whatever it does, the frames around the
innermost one are those of the index. Opening a frame adds the innermost one to them. -/
def outerScope : Simulation .assignmentFree (List Frame) where
  related outer m₁ m₂ := m₁ = m₂ ∧ m₁.Encloses outer
  lookup_eq := by
    rintro _ _ _ _ ⟨rfl, -⟩ -
    rfl
  value_lookup := by
    rintro _ _ _ _ _ ⟨rfl, hm⟩ hx hv
    exact (kept_within _).lookup hm.within hx hv
  define := by
    rintro _ _ _ _ _ ⟨rfl, hm⟩ hx hv
    exact ⟨rfl, (kept_within _).define hm.within hx hv, hm.outer_eq⟩
  assign := by
    -- The one thing that reaches further out is not in the vocabulary.
    intro _ _ _ x e _ _ hn _ _
    exact absurd hn (not_assignmentFree_assignment x e)
  print := by
    rintro _ _ _ line ⟨rfl, hm⟩
    exact ⟨rfl, (kept_within _).print line hm.within, hm.outer_eq⟩
  note := by
    rintro _ m _ e ⟨rfl, hm⟩ -
    exact ⟨rfl, (kept_within _).note e hm.within, (m.env_note e).symm ▸ hm.outer_eq⟩
  nextId_eq := by
    rintro _ _ _ ⟨rfl, -⟩
    rfl
  fresh := by
    rintro _ _ _ ⟨rfl, hm⟩
    exact ⟨rfl, (kept_within _).fresh hm.within, hm.outer_eq⟩
  frame := by
    rintro _ m _ ⟨rfl, hm⟩
    refine ⟨m.env.frames, ⟨rfl, hm.push⟩, ?_⟩
    rintro m' _ ⟨rfl, hm'⟩
    exact ⟨rfl, hm.release hm'⟩

/-! ### What is left unchanged -/

section

variable {α : Type} {Q : α → Prop} {m m' : Machine} {r : Except Fault α}

theorem outer_eq_of_follows {x : Action α} (hx : outerScope.Follows Q x x)
    (hm : m.Within .assignmentFree) (h : x m = .done r m') : m'.env.outer = m.env.outer := by
  obtain ⟨_, -, ⟨-, hm'⟩, -⟩ := hx ⟨rfl, hm, rfl⟩ h
  exact hm'.outer_eq

/-- What is done in a frame of its own changes nothing, if it changes the innermost frame only. -/
theorem env_inFrame_eq {x : Action α} (hx : outerScope.Follows Q x x)
    (hm : m.Within .assignmentFree) (h : Action.inFrame x m = .done r m') : m'.env = m.env := by
  obtain ⟨n, hn, rfl⟩ := Action.inFrame_eq_done h
  have hpush : m.push.Encloses m.env.frames := Machine.Encloses.push ⟨hm, rfl⟩
  obtain ⟨_, -, ⟨-, hn'⟩, -⟩ := hx ⟨rfl, hpush⟩ hn
  exact hn'.env_release_eq

end

section

variable {fuel : Nat} {m m' : Machine} {r : Except Fault Value}

theorem env_eval_program_eq {ns : List Node} (hns : (Node.program ns).assignmentFree = true)
    (hm : m.Within .assignmentFree) (h : eval fuel (.program ns) m = .done r m') :
    m'.env = m.env := by
  cases fuel with
  | zero => cases h
  | succ fuel =>
    rw [eval_program] at h
    have hnodes : ∀ n ∈ ns, Vocabulary.assignmentFree.node n := fun n hn =>
      Node.assignmentFree_of_mem hns (List.mem_cons_of_mem _ hn)
    exact env_inFrame_eq (outerScope.follows_sequence (Nat.le_refl fuel) hnodes
      Vocabulary.assignmentFree.value_undefined) hm h

theorem env_call_eq {f : Function} {args : List Value} (hf : f.body.assignmentFree = true)
    (hargs : ∀ v ∈ args, v.AssignmentFree) (hm : m.Within .assignmentFree)
    (h : Interpreter.call fuel (.function f) args m = .done r m') : m'.env = m.env := by
  have hbody : outerScope.Follows Value.AssignmentFree
      (Action.update (Eval.bindParams args 0 f.params) >>= fun _ => eval fuel f.body)
      (Action.update (Eval.bindParams args 0 f.params) >>= fun _ => eval fuel f.body) := by
    apply outerScope.follows_of_correspondence
    refine (outerScope.correspondence.follows_update fun i m₁ m₂ hm => ?_).bind fun _ _ _ => ?_
    · exact outerScope.correspondence.related_bindParams (Vocabulary.pairing_values hargs)
        (fun _ _ => trivial) 0 hm
    · exact outerScope.correspondence_eval (Nat.le_refl fuel) f.body f.body ⟨hf, rfl⟩
  have hcall : Action.inFrame
      (Action.update (Eval.bindParams args 0 f.params) >>= fun _ => eval fuel f.body)
      (m.note (.calledFunction f.params.length args.length)) = .done r m' := h
  rw [env_inFrame_eq hbody ((kept_within _).note _ hm) hcall, Machine.env_note]

end

/-- **Only an assignment can change an outer scope.** On a machine whose functions have no
assignments in their bodies, a node without assignments leaves every frame but the innermost as it
was, whether it fails or not. A sequence and a call do so with all frames, as they have a frame of
their own; a call may be of any function without assignments, with any such functions among its
arguments. -/
theorem assignment_free_keeps_scopes {m : Machine}
    (hm : ∀ f ∈ m.env.frames, ∀ b ∈ f, b.2.AssignmentFree) :
    (∀ n r m', n.assignmentFree = true → Evaluates n m r m' → m'.env.outer = m.env.outer) ∧
    (∀ ns r m', (Node.program ns).assignmentFree = true → Evaluates (.program ns) m r m' →
      m'.env = m.env) ∧
    ∀ (f : Function) args fuel r m', f.body.assignmentFree = true →
      (∀ v ∈ args, v.AssignmentFree) → Interpreter.call fuel (.function f) args m = .done r m' →
      m'.env = m.env := by
  have hwithin : m.Within .assignmentFree := fun f hf b hb => ⟨trivial, hm f hf b hb⟩
  refine ⟨fun n r m' hn ⟨fuel, h⟩ => ?_, fun ns r m' hns ⟨fuel, h⟩ => ?_, ?_⟩
  · exact outer_eq_of_follows (outerScope.follows_eval (Nat.le_refl fuel) hn) hwithin h
  · exact env_eval_program_eq hns hwithin h
  · exact fun f args fuel r m' hf hargs h => env_call_eq hf hargs hwithin h

/-- The function `(fn (g) (progn (++ z) (g "b")))`. -/
def stepper : Function :=
  ⟨0, ["g"], .program [.branch [.sym "++", .sym "z"], .branch [.sym "g", .atom ⟨.string, "b"⟩]]⟩

/-- The function `(fn (x) (let z x))`. -/
def definer : Function := ⟨1, ["x"], .branch [.sym "let", .sym "z", .sym "x"]⟩

/-- Both functions, the one in a frame around that of the other one and together with `z`. -/
def twoScopes : Machine where
  env := ⟨[("k", .function definer)], [[("z", .string "a"), ("f", .function stepper)]]⟩
  nextId := 2

/-- The call `(f k)`, in which `z` is first increased and then defined, binds no more than `v` in
`(let v (f k))`, and nothing in a sequence or by itself. -/
theorem assignment_free_keeps_scopes_of_twoScopes :
    ∃ m₁ m₂ m₃,
      Evaluates (.branch [.sym "let", .sym "v", .branch [.sym "f", .sym "k"]]) twoScopes
        (.ok (.string "b")) m₁ ∧
      m₁.env.inner.keys = ["k", "v"] ∧ m₁.env.outer = twoScopes.env.outer ∧
      Evaluates (.program [.branch [.sym "let", .sym "v", .branch [.sym "f", .sym "k"]]]) twoScopes
        (.ok (.string "b")) m₂ ∧
      m₂.env = twoScopes.env ∧
      Interpreter.call 4 (.function stepper) [.function definer] twoScopes =
        .done (.ok (.string "b")) m₃ ∧
      m₃.env = twoScopes.env := by
  have hfree : ∀ f ∈ twoScopes.env.frames, ∀ b ∈ f, b.2.AssignmentFree := by
    intro f hf b hb
    rcases List.mem_cons.1 hf with rfl | hf
    · cases List.mem_singleton.1 hb
      rfl
    · cases List.mem_singleton.1 hf
      rcases List.mem_cons.1 hb with rfl | hb
      · trivial
      · cases List.mem_singleton.1 hb
        rfl
  obtain ⟨hnode, hprogram, hcall⟩ := assignment_free_keeps_scopes hfree
  have hargs : ∀ v ∈ [Value.function definer], v.AssignmentFree := by
    rintro v hv
    cases List.mem_singleton.1 hv
    rfl
  have h₁ : Evaluates (.branch [.sym "let", .sym "v", .branch [.sym "f", .sym "k"]]) twoScopes
    (.ok (.string "b")) (twoScopes.define "v" (.string "b")) := ⟨6, rfl⟩
  have h₂ : Evaluates (.program [.branch [.sym "let", .sym "v", .branch [.sym "f", .sym "k"]]])
    twoScopes (.ok (.string "b")) twoScopes := ⟨7, rfl⟩
  have h₃ : Interpreter.call 4 (.function stepper) [.function definer] twoScopes =
    .done (.ok (.string "b")) twoScopes := rfl
  exact ⟨_, _, _, h₁, rfl, hnode _ _ _ rfl h₁, h₂, hprogram _ _ _ rfl h₂, h₃,
    hcall stepper _ 4 _ _ rfl hargs h₃⟩

end Lisplet
