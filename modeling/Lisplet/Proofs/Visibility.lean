import Mathlib.Data.List.Forall2
import Mathlib.Data.Set.Insert
import Lisplet.Proofs.Alike
import Lisplet.Proofs.Frames

/-!
# What a program can see

A node sees of an environment what the names in it mean, and what the names in the functions so
found mean. Let `N` be a set of names that is closed in this sense. Two environments in which
every name of `N` means the same are the same to the node, however deep they are and in whichever
frames the names are bound, and it leaves the names outside of `N` alone.

While a frame is open, an outer binding may be hidden that shows again when the frame is gone. So
what runs side by side is more than two environments with the same visible bindings: the frames
pushed since the start agree one by one (`Similar`), and only what was there before agrees as a
whole.
-/

namespace Lisplet

/-! ### Names in nodes and values -/

mutual

/-- The names that occur as symbols in a tree. -/
def Node.symbols : Node → List String
  | .hole _ => []
  | .atom t => if t.kind = .symbol then [t.text] else []
  | .branch cs => symbolsAll cs

/-- The names that occur as symbols in a list of trees. -/
def Node.symbolsAll : List Node → List String
  | [] => []
  | n :: rest => symbols n ++ symbolsAll rest

end

/-- Every symbol of a node is in a set of names. -/
def Node.Within (N : Set String) (n : Node) : Prop := ∀ x ∈ n.symbols, x ∈ N

/-- A value is no function, or one whose parameters and symbols are in a set of names. -/
def Value.Within (N : Set String) : Value → Prop
  | .function f => (∀ x ∈ f.params, x ∈ N) ∧ f.body.Within N
  | _ => True

@[simp] theorem Node.symbols_sym (x : String) : (Node.sym x).symbols = [x] := rfl

theorem Node.mem_symbolsAll {ns : List Node} {n : Node} {x : String} (hn : n ∈ ns)
    (hx : x ∈ n.symbols) : x ∈ symbolsAll ns := by
  induction ns with
  | nil => cases hn
  | cons n' ns ih =>
    rw [symbolsAll, List.mem_append]
    rcases List.mem_cons.1 hn with rfl | hn
    · exact .inl hx
    · exact .inr (ih hn)

/-- What holds of every value of the language but functions, and of the arguments, holds of what a
builtin returns. -/
theorem Builtin.apply_induction {P : Value → Prop} (undefined : P .undefined)
    (number : ∀ x, P (.number x)) (string : ∀ s, P (.string s)) (bool : ∀ b, P (.bool b))
    (b : Builtin) {args : List Value} (hargs : ∀ v ∈ args, P v) : P (b.apply args) := by
  have hsame : List.Forall₂ (fun v w => P v ∧ v = w) args args :=
    List.forall₂_same.2 fun v hv => ⟨hargs v hv, rfl⟩
  exact (b.apply_rel (fun h => Or.inl h.2) ⟨undefined, rfl⟩ (fun x => ⟨number x, rfl⟩)
    (fun s => ⟨string s, rfl⟩) (fun c => ⟨bool c, rfl⟩) hsame).1

/-- The nodes, names and values that stay within a set of names. -/
def Vocabulary.within (N : Set String) : Vocabulary where
  node := Node.Within N
  name x := x ∈ N
  value := Value.Within N
  node_of_mem h hn x hx := h x (Node.mem_symbolsAll hn hx)
  name_of_node {x} h _ := h x (by simp)
  value_undefined := trivial
  value_number _ := trivial
  value_string _ := trivial
  value_apply b _ hargs :=
    b.apply_induction trivial (fun _ => trivial) (fun _ => trivial) (fun _ => trivial) hargs
  value_function := Iff.rfl

/-! ### Looking up and assigning in a stack -/

theorem Frame.get?_set (x y : String) (v : Value) (f : Frame) :
    get? y (set x v f) = if y = x then some v else get? y f := by
  by_cases h : y = x
  · rw [if_pos h, h, get?_set_self]
  · rw [if_neg h, get?_set_of_ne h]

namespace Environment

theorem lookupIn_cons (x : String) (f : Frame) (fs : List Frame) :
    lookupIn x (f :: fs) = (f.get? x).or (lookupIn x fs) := by
  rw [lookupIn]
  cases f.get? x <;> rfl

theorem lookupIn_set_cons (x y : String) (v : Value) (f : Frame) (fs : List Frame) :
    lookupIn y (f.set x v :: fs) = if y = x then some v else lookupIn y (f :: fs) := by
  rw [lookupIn_cons, lookupIn_cons, Frame.get?_set]
  split <;> rfl

theorem assignIn_eq_none_iff {x : String} {v : Value} {fs : List Frame} :
    assignIn x v fs = none ↔ lookupIn x fs = none := by
  induction fs with
  | nil => simp [assignIn, lookupIn]
  | cons f fs ih => cases h : f.get? x <;> simp [assignIn, lookupIn, h, ih]

theorem lookupIn_assignIn {x : String} {v : Value} {fs gs : List Frame}
    (h : assignIn x v fs = some gs) (y : String) :
    lookupIn y gs = if y = x then some v else lookupIn y fs := by
  induction fs generalizing gs with
  | nil => simp [assignIn] at h
  | cons f fs ih =>
    unfold assignIn at h
    cases hf : f.get? x with
    | some w =>
      rw [hf] at h
      cases h
      exact lookupIn_set_cons x y v f fs
    | none =>
      rw [hf] at h
      obtain ⟨gs', hgs, rfl⟩ := Option.map_eq_some_iff.1 h
      rw [lookupIn_cons, lookupIn_cons, ih hgs]
      by_cases hy : y = x
      · simp [hy, hf]
      · simp [hy]

theorem frames_assign (x : String) (v : Value) (e : Environment) :
    (e.assign x v).map frames = assignIn x v e.frames := by
  unfold assign frames
  rw [assignIn]
  cases e.inner.get? x <;> simp [Function.comp_def]

end Environment

/-! ### Stacks that look the same -/

/-- Two ways to look up names agree on a set of names, and find only values within it. -/
def Agree (N : Set String) (p q : String → Option Value) : Prop :=
  ∀ x ∈ N, p x = q x ∧ ∀ v, p x = some v → v.Within N

/-- The `k` innermost frames of two stacks agree one by one, and the rest of them as a whole. -/
def Similar (N : Set String) : Nat → List Frame → List Frame → Prop
  | 0, fs, gs => Agree N (Environment.lookupIn · fs) (Environment.lookupIn · gs)
  | k + 1, f :: fs, g :: gs => Agree N (Frame.get? · f) (Frame.get? · g) ∧ Similar N k fs gs
  | _ + 1, _, _ => False

variable {N : Set String}

theorem Agree.or {p q p' q' : String → Option Value} (h : Agree N p q) (h' : Agree N p' q') :
    Agree N (fun x => (p x).or (p' x)) (fun x => (q x).or (q' x)) := by
  intro x hx
  obtain ⟨hp, hv⟩ := h x hx
  obtain ⟨hp', hv'⟩ := h' x hx
  refine ⟨by simp only [hp, hp'], fun v h => ?_⟩
  rcases Option.or_eq_some_iff.1 h with h | ⟨-, h⟩
  · exact hv v h
  · exact hv' v h

/-- Both change the value of one name in the same way. -/
theorem Agree.update {p q p' q' : String → Option Value} (h : Agree N p q) {x : String} {v : Value}
    (hv : v.Within N) (hp : ∀ y, p' y = if y = x then some v else p y)
    (hq : ∀ y, q' y = if y = x then some v else q y) : Agree N p' q' := by
  intro y hy
  rw [hp, hq]
  split
  · exact ⟨rfl, fun w hw => Option.some.inj hw ▸ hv⟩
  · exact h y hy

namespace Similar

variable {k : Nat} {f g : Frame} {fs gs fs' gs' : List Frame} {x : String} {v : Value}

theorem lookupIn (h : Similar N k fs gs) :
    Agree N (Environment.lookupIn · fs) (Environment.lookupIn · gs) := by
  induction k generalizing fs gs with
  | zero => exact h
  | succ k ih =>
    match fs, gs, h with
    | f :: fs, g :: gs, ⟨hf, hfs⟩ =>
      simp only [Environment.lookupIn_cons]
      exact hf.or (ih hfs)

theorem set (h : Similar N k (f :: fs) (g :: gs)) (hv : v.Within N) :
    Similar N k (f.set x v :: fs) (g.set x v :: gs) := by
  cases k with
  | zero =>
    exact Agree.update h hv (fun y => Environment.lookupIn_set_cons x y v f fs)
      fun y => Environment.lookupIn_set_cons x y v g gs
  | succ k =>
    exact ⟨h.1.update hv (fun y => Frame.get?_set x y v f) fun y => Frame.get?_set x y v g, h.2⟩

/-- A name that means the same can be assigned to in both stacks, or in neither. The frame that
holds it is the same one as long as it is among the `k` innermost. -/
theorem assignIn (h : Similar N k fs gs) (hx : x ∈ N) (hv : v.Within N) :
    (Environment.assignIn x v fs = none ∧ Environment.assignIn x v gs = none) ∨
      ∃ fs' gs', Environment.assignIn x v fs = some fs' ∧ Environment.assignIn x v gs = some gs' ∧
        Similar N k fs' gs' := by
  induction k generalizing fs gs with
  | zero =>
    have hl : Environment.lookupIn x fs = Environment.lookupIn x gs := (h x hx).1
    cases hf : Environment.assignIn x v fs with
    | none =>
      rw [Environment.assignIn_eq_none_iff] at hf
      exact .inl ⟨rfl, Environment.assignIn_eq_none_iff.2 (hl ▸ hf)⟩
    | some fs' =>
      cases hg : Environment.assignIn x v gs with
      | none =>
        rw [Environment.assignIn_eq_none_iff] at hg
        rw [Environment.assignIn_eq_none_iff.2 (hl.trans hg)] at hf
        cases hf
      | some gs' =>
        refine .inr ⟨fs', gs', rfl, rfl, ?_⟩
        exact Agree.update h hv (Environment.lookupIn_assignIn hf)
          (Environment.lookupIn_assignIn hg)
  | succ k ih =>
    match fs, gs, h with
    | f :: fs, g :: gs, ⟨hf, hfs⟩ =>
      have hl : Frame.get? x f = Frame.get? x g := (hf x hx).1
      rw [Environment.assignIn, Environment.assignIn, ← hl]
      cases Frame.get? x f with
      | some w => exact .inr ⟨_, _, rfl, rfl, set ⟨hf, hfs⟩ hv⟩
      | none =>
        rcases ih hfs with ⟨h₁, h₂⟩ | ⟨fs', gs', h₁, h₂, h'⟩
        · exact .inl ⟨by simp [h₁], by simp [h₂]⟩
        · exact .inr ⟨f :: fs', g :: gs', by simp [h₁], by simp [h₂], hf, h'⟩

end Similar

/-! ### Names that are left alone -/

/-- Every frame of a stack binds the names outside of a set as another stack does. -/
def Untouched (N : Set String) : List Frame → List Frame → Prop :=
  List.Forall₂ fun f f' => ∀ x ∉ N, f'.get? x = f.get? x

namespace Untouched

variable {f : Frame} {fs gs hs : List Frame} {x : String} {v : Value}

theorem refl (fs : List Frame) : Untouched N fs fs := List.forall₂_same.2 fun _ _ _ _ => rfl

theorem trans (h : Untouched N fs gs) (h' : Untouched N gs hs) : Untouched N fs hs := by
  induction h generalizing hs with
  | nil => exact h'
  | cons hf _ ih =>
    cases h' with
    | cons hg h' => exact .cons (fun x hx => (hg x hx).trans (hf x hx)) (ih h')

theorem set (hx : x ∈ N) : Untouched N (f :: fs) (f.set x v :: fs) := by
  refine .cons (fun y hy => Frame.get?_set_of_ne ?_ v f) (refl fs)
  rintro rfl
  exact hy hx

theorem assignIn (hx : x ∈ N) (h : Environment.assignIn x v fs = some gs) :
    Untouched N fs gs := by
  induction fs generalizing gs with
  | nil => simp [Environment.assignIn] at h
  | cons f fs ih =>
    unfold Environment.assignIn at h
    split at h
    · cases h
      exact set hx
    · obtain ⟨gs', hgs, rfl⟩ := Option.map_eq_some_iff.1 h
      exact .cons (fun _ _ => rfl) (ih hgs)

/-- What is done above a stack leaves the names of the stack alone. -/
theorem cutTo {e e' : Environment} (h : Untouched N e.push.frames e'.frames) :
    Untouched N e.frames (e'.cutTo e.depth).frames := by
  have hd : e'.depth = e.depth + 1 := h.length_eq.symm
  rw [Environment.frames_cutTo e.depth_pos hd]
  cases h with
  | cons _ h => exact h

end Untouched

/-! ### Two runs -/

/-- Two machines in the middle of runs that started from the stacks `fs₁` and `fs₂`, with `k`
frames pushed since. -/
structure Concord (N : Set String) (k : Nat) (fs₁ fs₂ : List Frame) (m₁ m₂ : Machine) : Prop where
  similar : Similar N k m₁.env.frames m₂.env.frames
  nextId : m₁.nextId = m₂.nextId
  printed : m₁.printed = m₂.printed
  left : Untouched N fs₁ m₁.env.frames
  right : Untouched N fs₂ m₂.env.frames

namespace Concord

variable {k : Nat} {fs₁ fs₂ : List Frame} {m₁ m₂ m₁' m₂' : Machine}

/-- A change of the machines that does not concern the stacks. -/
theorem of_env (h : Concord N k fs₁ fs₂ m₁ m₂) (h₁ : m₁'.env = m₁.env) (h₂ : m₂'.env = m₂.env)
    (hid : m₁'.nextId = m₂'.nextId) (hp : m₁'.printed = m₂'.printed) :
    Concord N k fs₁ fs₂ m₁' m₂' :=
  ⟨h₁ ▸ h₂ ▸ h.similar, hid, hp, h₁ ▸ h.left, h₂ ▸ h.right⟩

theorem define {x : String} {v : Value} (h : Concord N k fs₁ fs₂ m₁ m₂) (hx : x ∈ N)
    (hv : v.Within N) : Concord N k fs₁ fs₂ (m₁.define x v) (m₂.define x v) :=
  ⟨h.similar.set hv, h.nextId, h.printed, h.left.trans (.set hx), h.right.trans (.set hx)⟩

theorem assign {x : String} {v : Value} (h : Concord N k fs₁ fs₂ m₁ m₂) (hx : x ∈ N)
    (hv : v.Within N) :
    (m₁.env.assign x v = none ∧ m₂.env.assign x v = none) ∨
      ∃ e₁ e₂, m₁.env.assign x v = some e₁ ∧ m₂.env.assign x v = some e₂ ∧
        Concord N k fs₁ fs₂ { m₁ with env := e₁ } { m₂ with env := e₂ } := by
  have hs := h.similar.assignIn hx hv
  rw [← Environment.frames_assign, ← Environment.frames_assign] at hs
  rcases hs with ⟨h₁, h₂⟩ | ⟨gs₁, gs₂, h₁, h₂, hs⟩
  · exact .inl ⟨Option.map_eq_none_iff.1 h₁, Option.map_eq_none_iff.1 h₂⟩
  · obtain ⟨e₁, he₁, rfl⟩ := Option.map_eq_some_iff.1 h₁
    obtain ⟨e₂, he₂, rfl⟩ := Option.map_eq_some_iff.1 h₂
    rw [Environment.frames_assign] at h₁ h₂
    exact .inr ⟨e₁, e₂, he₁, he₂, hs, h.nextId, h.printed, h.left.trans (.assignIn hx h₁),
      h.right.trans (.assignIn hx h₂)⟩

theorem push (h : Concord N k fs₁ fs₂ m₁ m₂) :
    Concord N (k + 1) m₁.push.env.frames m₂.push.env.frames m₁.push m₂.push := by
  refine ⟨?_, by simp [h.nextId], by simp [h.printed], .refl _, .refl _⟩
  rw [Machine.env_push, Machine.env_push]
  exact ⟨fun x _ => ⟨rfl, fun v hv => nomatch hv⟩, h.similar⟩

theorem release (h : Concord N k fs₁ fs₂ m₁ m₂)
    (h' : Concord N (k + 1) m₁.push.env.frames m₂.push.env.frames m₁' m₂') :
    Concord N k fs₁ fs₂ (m₁'.release m₁.env.depth) (m₂'.release m₂.env.depth) := by
  have left := h'.left
  have right := h'.right
  rw [Machine.env_push] at left right
  have hd₁ : m₁'.env.depth = m₁.env.depth + 1 := left.length_eq.symm
  have hd₂ : m₂'.env.depth = m₂.env.depth + 1 := right.length_eq.symm
  refine ⟨?_, by simp [h'.nextId], by simp [h'.printed], ?_, ?_⟩
  · rw [Machine.env_release, Machine.env_release,
      Environment.frames_cutTo m₁.env.depth_pos hd₁, Environment.frames_cutTo m₂.env.depth_pos hd₂]
    exact h'.similar.2
  · rw [Machine.env_release]
    exact h.left.trans left.cutTo
  · rw [Machine.env_release]
    exact h.right.trans right.cutTo

/-- Runs that agree on what is visible stay so; the index is the number of frames pushed since
they started, and the stacks that the present frame started from. -/
def simulation (N : Set String) :
    Simulation (.within N) (Nat × List Frame × List Frame) where
  related i := Concord N i.1 i.2.1 i.2.2
  lookup_eq {_ _ _ x} h hx := (h.similar.lookupIn x (hx x (by simp))).1
  value_lookup {_ _ _ x v} h hx hv := (h.similar.lookupIn x (hx x (by simp))).2 v hv
  define h hx hv := h.define hx hv
  assign h _ hx hv := h.assign hx hv
  print line h := h.of_env rfl rfl h.nextId (by simp [Machine.print, h.printed])
  note h _ := h.of_env (Machine.env_note _ _) (Machine.env_note _ _) (by simp [h.nextId])
    (by simp [h.printed])
  nextId_eq h := h.nextId
  fresh h := h.of_env rfl rfl (by simp [h.nextId]) h.printed
  frame {i m₁ m₂} h :=
    ⟨(i.1 + 1, m₁.push.env.frames, m₂.push.env.frames), h.push, fun _ _ h' => h.release h'⟩

end Concord

/-- If every name of a closed set means the same in two environments, then a node within the set
that ends in the one ends in the other in the same way. -/
theorem eval_concord {n : Node} {m m₁ : Machine} {e₁ e₂ : Environment} {r : Except Fault Value}
    {fuel : Nat} (hn : n.Within N)
    (he : Agree N (Environment.lookup · e₁) (Environment.lookup · e₂))
    (h : eval fuel n { m with env := e₁ } = .done r m₁) :
    ∃ m₂, eval fuel n { m with env := e₂ } = .done r m₂ ∧
      Concord N 0 e₁.frames e₂.frames m₁ m₂ := by
  have hm : Concord N 0 e₁.frames e₂.frames { m with env := e₁ } { m with env := e₂ } :=
    ⟨he, rfl, rfl, .refl _, .refl _⟩
  obtain ⟨m₂, h₂, hc, -⟩ :=
    (Concord.simulation N).follows_eval (Nat.le_refl fuel) hn (i := (0, e₁.frames, e₂.frames)) hm h
  exact ⟨m₂, h₂, hc⟩

/-- **Evaluation depends on an environment only through the visible bindings of the names in
reach.** -/
theorem evaluates_visible (N : Set String) (n : Node) (m : Machine) (e₁ e₂ : Environment)
    (hn : ∀ x ∈ n.symbols, x ∈ N)
    (hN : ∀ x ∈ N, ∀ f, e₁.lookup x = some (.function f) →
      (∀ y ∈ f.params, y ∈ N) ∧ ∀ y ∈ f.body.symbols, y ∈ N)
    (he : ∀ x ∈ N, e₁.lookup x = e₂.lookup x) :
    ((∃ r m', Evaluates n { m with env := e₁ } r m') ↔
      ∃ r m', Evaluates n { m with env := e₂ } r m') ∧
    ∀ r₁ r₂ m₁ m₂, Evaluates n { m with env := e₁ } r₁ m₁ →
      Evaluates n { m with env := e₂ } r₂ m₂ →
        r₁ = r₂ ∧ m₁.printed = m₂.printed ∧
        (∀ x ∈ N, m₁.env.lookup x = m₂.env.lookup x) ∧
        Untouched N e₁.frames m₁.env.frames ∧ Untouched N e₂.frames m₂.env.frames := by
  have h₁₂ : Agree N (Environment.lookup · e₁) (Environment.lookup · e₂) := by
    refine fun x hx => ⟨he x hx, fun v hv => ?_⟩
    cases v with
    | function f => exact hN x hx f hv
    | _ => trivial
  have h₂₁ : Agree N (Environment.lookup · e₂) (Environment.lookup · e₁) := by
    refine fun x hx => ⟨(he x hx).symm, fun v hv => (h₁₂ x hx).2 v ?_⟩
    exact (he x hx).trans hv
  refine ⟨⟨?_, ?_⟩, ?_⟩
  · rintro ⟨r, m₁, fuel, h⟩
    obtain ⟨m₂, h', -⟩ := eval_concord hn h₁₂ h
    exact ⟨r, m₂, fuel, h'⟩
  · rintro ⟨r, m₂, fuel, h⟩
    obtain ⟨m₁, h', -⟩ := eval_concord hn h₂₁ h
    exact ⟨r, m₁, fuel, h'⟩
  · rintro r₁ r₂ m₁ m₂ ⟨fuel₁, h₁⟩ ⟨fuel₂, h₂⟩
    obtain ⟨m₂', h₂', hc⟩ := eval_concord hn h₁₂ h₁
    obtain ⟨rfl, rfl⟩ := eval_unique h₂' h₂
    exact ⟨rfl, hc.printed, fun x hx => (hc.similar x hx).1, hc.left, hc.right⟩

/-- The call `(f "a")`. -/
def callOfF : Node := .branch [.sym "f", .atom ⟨.string, "a"⟩]

/-- The function `(fn (y) (let z y))`. -/
def keeper : Function := ⟨0, ["y"], .branch [.sym "let", .sym "z", .sym "y"]⟩

/-- A call in an environment that binds the function alone, and in a deeper one that binds it
further out and binds another name as well. -/
theorem evaluates_visible_callOfF :
    ∃ m₁ m₂,
      Evaluates callOfF { env := ⟨[("f", .function keeper)], []⟩ } (.ok (.string "a")) m₁ ∧
      Evaluates callOfF { env := ⟨[("w", .undefined)], [[], [("f", .function keeper)]]⟩ }
        (.ok (.string "a")) m₂ ∧
      Untouched {"f", "y", "z", "let"} [[("w", .undefined)], [], [("f", .function keeper)]]
        m₂.env.frames := by
  obtain ⟨hfin, hsame⟩ := evaluates_visible {"f", "y", "z", "let"} callOfF {}
    ⟨[("f", .function keeper)], []⟩ ⟨[("w", .undefined)], [[], [("f", .function keeper)]]⟩
    (by simp [callOfF, Node.symbols, Node.symbolsAll])
    (by
      rintro x (rfl | rfl | rfl | rfl) f h <;>
        simp [Environment.lookup, Environment.lookupIn, Environment.frames, Frame.get?] at h
      subst h
      simp [keeper, Node.symbols, Node.symbolsAll])
    (by rintro x (rfl | rfl | rfl | rfl) <;> rfl)
  have h₁ : Evaluates callOfF { env := ⟨[("f", .function keeper)], []⟩ } (.ok (.string "a"))
      { env := ⟨[("f", .function keeper)], []⟩ } := ⟨3, rfl⟩
  obtain ⟨r, m₂, h₂⟩ := hfin.1 ⟨_, _, h₁⟩
  obtain ⟨rfl, -, -, -, hu⟩ := hsame _ r _ m₂ h₁ h₂
  exact ⟨_, m₂, h₁, h₂, hu⟩

end Lisplet
