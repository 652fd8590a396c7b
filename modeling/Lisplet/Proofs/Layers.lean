import Mathlib.Algebra.GroupWithZero.Nat
import Lisplet.Proofs.Visibility

/-!
# Stacks side by side

Two programs may use different numbers of frames for the same thing: what one of them does in a
frame, the other one may do in a frame within that frame. Their stacks then correspond layer by
layer. A layer is a frame on both sides, with the same bindings, or a group of frames on each side
in which every name means the same. Names are defined in the innermost frame of a group, and changed
in whichever frame of it binds them; either way the meaning of names in the group as a whole is all
that can be seen, and a group is released as a whole.

* `Frame.Related`: the same names in the same order, bound to values that go together;
* `Layer`, `Layered`: two stacks, layer by layer;
* `Parallel`: two machines with such stacks;
* `Parallel.correspondence`: for whatever goes together, evaluation keeps the layers;
* `follows_nested`: what is done in a frame may be done in any number of nested frames.
-/

namespace Lisplet

/-! ### Lookup and assignment in a stack of two parts -/

namespace Environment

variable {x : String} {v : Value} {F G : List Frame}

theorem lookupIn_append (x : String) (F G : List Frame) :
    lookupIn x (F ++ G) = (lookupIn x F).or (lookupIn x G) := by
  induction F with
  | nil => rfl
  | cons f F ih => rw [List.cons_append, lookupIn_cons, lookupIn_cons, ih, Option.or_assoc]

theorem assignIn_append_of_some {F' : List Frame} (h : assignIn x v F = some F') :
    assignIn x v (F ++ G) = some (F' ++ G) := by
  induction F generalizing F' with
  | nil => cases h
  | cons f F ih =>
    rw [assignIn] at h
    rw [List.cons_append, assignIn]
    split at h
    · cases h
      rfl
    · obtain ⟨F'', hF, rfl⟩ := Option.map_eq_some_iff.1 h
      rw [ih hF]
      rfl

theorem assignIn_append_of_none (h : assignIn x v F = none) :
    assignIn x v (F ++ G) = (assignIn x v G).map (F ++ ·) := by
  induction F with
  | nil => simp
  | cons f F ih =>
    rw [assignIn] at h
    rw [List.cons_append, assignIn]
    split at h
    · cases h
    · rw [ih (Option.map_eq_none_iff.1 h), Option.map_map]
      rfl

theorem length_assignIn {F' : List Frame} (h : assignIn x v F = some F') :
    F'.length = F.length := by
  have := congrArg List.length (keys_assignIn h)
  simpa using this

/-! ### Cutting a stack -/

theorem drop_drop (a b : Nat) (e : Environment) : (e.drop a).drop b = e.drop (a + b) := by
  induction a generalizing e with
  | zero => rw [Nat.zero_add, drop]
  | succ a ih =>
    obtain ⟨inner, outer⟩ := e
    rw [Nat.succ_add]
    cases outer with
    | nil => cases b <;> rfl
    | cons f outer => exact ih ⟨f, outer⟩

/-- Of two cuts, only the deeper one counts. -/
theorem cutTo_cutTo {d d' : Nat} (hd : 0 < d) (h : d ≤ d') (e : Environment) :
    (e.cutTo d').cutTo d = e.cutTo d := by
  have := e.depth_pos
  rw [cutTo, cutTo, cutTo, depth_drop, drop_drop]
  congr 1
  omega

/-- A stack of two parts is cut to the depth of the outer one. -/
theorem frames_cutTo_append {e : Environment} (h : e.frames = F ++ G) (hG : 0 < G.length) :
    (e.cutTo G.length).frames = G := by
  have hdepth : e.depth = F.length + G.length := by
    have := congrArg List.length h
    simpa [frames, depth] using this
  rw [cutTo, hdepth, Nat.add_sub_cancel]
  clear hdepth
  induction F generalizing e with
  | nil => exact h
  | cons f F ih =>
    obtain ⟨inner, outer⟩ := e
    have houter : outer = F ++ G := (List.cons.inj h).2
    cases outer with
    | nil =>
      have := congrArg List.length houter
      rw [List.length_nil, List.length_append] at this
      omega
    | cons g outer =>
      rw [List.length_cons, drop]
      exact ih houter

end Environment

/-! ### Frames and layers -/

section

variable (R : Value → Value → Prop)

/-- Two frames bind the same names in the same order, to values that go together. -/
def Frame.Related (f g : Frame) : Prop := List.Forall₂ (fun b c => b.1 = c.1 ∧ R b.2 c.2) f g

/-- Frames that correspond to each other. -/
inductive Layer where
  /-- A frame on both sides. -/
  | frame
  /-- A frame and so many around it, on the left and on the right. -/
  | group (left right : Nat)

/-- The frames of a layer: in a group, every name means the same on both sides. -/
inductive Layer.Holds : Layer → List Frame → List Frame → Prop
  | frame {f g : Frame} : f.Related R g → Holds .frame [f] [g]
  | group {F G : List Frame} {left right : Nat} : F.length = left + 1 → G.length = right + 1 →
      (∀ x, Option.Rel R (Environment.lookupIn x F) (Environment.lookupIn x G)) →
      Holds (.group left right) F G

/-- Two stacks that correspond layer by layer, the innermost first. -/
def Layered : List Layer → List Frame → List Frame → Prop
  | [], F, G => F = [] ∧ G = []
  | l :: ls, F, G => ∃ F₁ F₂ G₁ G₂, F = F₁ ++ F₂ ∧ G = G₁ ++ G₂ ∧ l.Holds R F₁ G₁ ∧
      Layered ls F₂ G₂

end

section

variable {R : Value → Value → Prop} {v w : Value} {x : String}

theorem rel_or {a b c d : Option Value} (h : Option.Rel R a b) (h' : Option.Rel R c d) :
    Option.Rel R (a.or c) (b.or d) := by
  cases h with
  | none => exact h'
  | some hv => exact .some hv

theorem rel_update {p q p' q' : String → Option Value} (h : ∀ y, Option.Rel R (p y) (q y))
    (hv : R v w) (hp : ∀ y, p' y = if y = x then some v else p y)
    (hq : ∀ y, q' y = if y = x then some w else q y) (y : String) :
    Option.Rel R (p' y) (q' y) := by
  rw [hp, hq]
  by_cases hy : y = x
  · rw [if_pos hy, if_pos hy]
    exact .some hv
  · rw [if_neg hy, if_neg hy]
    exact h y

namespace Frame.Related

variable {f g : Frame}

theorem get? (h : f.Related R g) (x : String) : Option.Rel R (f.get? x) (g.get? x) := by
  induction h with
  | nil => exact .none
  | @cons b c f g hb _ ih =>
    obtain ⟨key, v⟩ := b
    obtain ⟨_, w⟩ := c
    obtain ⟨rfl, hv⟩ := hb
    by_cases hk : key = x
    · simp only [Frame.get?, hk, if_true]
      exact .some hv
    · simp only [Frame.get?, hk, if_false]
      exact ih

theorem set (h : f.Related R g) (hv : R v w) : (f.set x v).Related R (g.set x w) := by
  induction h with
  | nil => exact .cons ⟨rfl, hv⟩ .nil
  | @cons b c f g hb hfg ih =>
    obtain ⟨key, v'⟩ := b
    obtain ⟨_, w'⟩ := c
    obtain ⟨rfl, hv'⟩ := hb
    by_cases hk : key = x
    · simp only [Frame.set, hk, if_true]
      exact .cons ⟨rfl, hv⟩ hfg
    · simp only [Frame.set, hk, if_false]
      exact .cons ⟨rfl, hv'⟩ ih

end Frame.Related

/-- The number of frames that a layer has on the left. -/
def Layer.left : Layer → Nat
  | .frame => 1
  | .group left _ => left + 1

/-- The number of frames that a layer has on the right. -/
def Layer.right : Layer → Nat
  | .frame => 1
  | .group _ right => right + 1

namespace Layer.Holds

variable {l : Layer} {F G : List Frame}

theorem length_left (h : l.Holds R F G) : F.length = l.left := by
  cases h with
  | frame => rfl
  | group hF => exact hF

theorem length_right (h : l.Holds R F G) : G.length = l.right := by
  cases h with
  | frame => rfl
  | group _ hG => exact hG

theorem lookupIn (h : l.Holds R F G) (x : String) :
    Option.Rel R (Environment.lookupIn x F) (Environment.lookupIn x G) := by
  cases h with
  | frame h =>
    rw [Environment.lookupIn_cons, Environment.lookupIn_cons]
    exact rel_or (h.get? x) .none
  | group _ _ h => exact h x

theorem set {f g : Frame} (h : l.Holds R (f :: F) (g :: G)) (hv : R v w) :
    l.Holds R (f.set x v :: F) (g.set x w :: G) := by
  cases h with
  | frame h => exact .frame (h.set hv)
  | group hF hG h =>
    exact .group hF hG (rel_update h hv (fun y => Environment.lookupIn_set_cons x y v f F)
      fun y => Environment.lookupIn_set_cons x y w g G)

/-- Both sides of a layer bind a name, or neither does; and changing it keeps the layer. -/
theorem assignIn (h : l.Holds R F G) (hv : R v w) :
    (Environment.assignIn x v F = none ∧ Environment.assignIn x w G = none) ∨
      ∃ F' G', Environment.assignIn x v F = some F' ∧ Environment.assignIn x w G = some G' ∧
        l.Holds R F' G' := by
  have hx := h.lookupIn x
  cases hF : Environment.assignIn x v F with
  | none =>
    rw [Environment.assignIn_eq_none_iff.1 hF] at hx
    cases hG : Environment.lookupIn x G with
    | none => exact .inl ⟨rfl, Environment.assignIn_eq_none_iff.2 hG⟩
    | some w' =>
      rw [hG] at hx
      cases hx
  | some F' =>
    cases hG : Environment.assignIn x w G with
    | none =>
      rw [Environment.assignIn_eq_none_iff.1 hG] at hx
      cases hl : Environment.lookupIn x F with
      | none =>
        rw [Environment.assignIn_eq_none_iff.2 hl] at hF
        cases hF
      | some v' =>
        rw [hl] at hx
        cases hx
    | some G' =>
      refine .inr ⟨F', G', rfl, rfl, ?_⟩
      cases h with
      | group hlF hlG h =>
        -- The frame that changes need not be as deep on one side as on the other.
        exact .group ((Environment.length_assignIn hF).trans hlF)
          ((Environment.length_assignIn hG).trans hlG)
          (rel_update h hv (Environment.lookupIn_assignIn hF) (Environment.lookupIn_assignIn hG))
      | @frame f g h =>
        simp only [Environment.assignIn] at hF hG
        split at hF
        · split at hG
          · cases hF
            cases hG
            exact .frame (h.set hv)
          · cases hG
        · cases hF

end Layer.Holds

namespace Layered

variable {ls : List Layer} {F G : List Frame}

theorem length (h : Layered R ls F G) :
    F.length = (ls.map Layer.left).sum ∧ G.length = (ls.map Layer.right).sum := by
  induction ls generalizing F G with
  | nil =>
    obtain ⟨rfl, rfl⟩ := h
    exact ⟨rfl, rfl⟩
  | cons l ls ih =>
    obtain ⟨F₁, F₂, G₁, G₂, rfl, rfl, hl, hls⟩ := h
    obtain ⟨hF, hG⟩ := ih hls
    simp [hl.length_left, hl.length_right, hF, hG]

theorem lookupIn (h : Layered R ls F G) (x : String) :
    Option.Rel R (Environment.lookupIn x F) (Environment.lookupIn x G) := by
  induction ls generalizing F G with
  | nil =>
    obtain ⟨rfl, rfl⟩ := h
    exact .none
  | cons l ls ih =>
    obtain ⟨F₁, F₂, G₁, G₂, rfl, rfl, hl, hls⟩ := h
    rw [Environment.lookupIn_append, Environment.lookupIn_append]
    exact rel_or (hl.lookupIn x) (ih hls)

theorem set {f g : Frame} (h : Layered R ls (f :: F) (g :: G)) (hv : R v w) :
    Layered R ls (f.set x v :: F) (g.set x w :: G) := by
  cases ls with
  | nil => cases h.1
  | cons l ls =>
    obtain ⟨F₁, F₂, G₁, G₂, hF, hG, hl, hls⟩ := h
    cases F₁ with
    | nil =>
      have := hl.length_left
      cases l <;> cases this
    | cons f₁ F₁ =>
      cases G₁ with
      | nil =>
        have := hl.length_right
        cases l <;> cases this
      | cons g₁ G₁ =>
        cases hF
        cases hG
        exact ⟨_, F₂, _, G₂, rfl, rfl, hl.set hv, hls⟩

theorem assignIn (h : Layered R ls F G) (hv : R v w) :
    (Environment.assignIn x v F = none ∧ Environment.assignIn x w G = none) ∨
      ∃ F' G', Environment.assignIn x v F = some F' ∧ Environment.assignIn x w G = some G' ∧
        Layered R ls F' G' := by
  induction ls generalizing F G with
  | nil =>
    obtain ⟨rfl, rfl⟩ := h
    exact .inl ⟨rfl, rfl⟩
  | cons l ls ih =>
    obtain ⟨F₁, F₂, G₁, G₂, rfl, rfl, hl, hls⟩ := h
    rcases hl.assignIn (x := x) hv with ⟨hF, hG⟩ | ⟨F', G', hF, hG, hl'⟩
    · rw [Environment.assignIn_append_of_none hF, Environment.assignIn_append_of_none hG]
      rcases ih hls with ⟨hF', hG'⟩ | ⟨F', G', hF', hG', hls'⟩
      · rw [hF', hG']
        exact .inl ⟨rfl, rfl⟩
      · rw [hF', hG']
        exact .inr ⟨_, _, rfl, rfl, F₁, F', G₁, G', rfl, rfl, hl, hls'⟩
    · rw [Environment.assignIn_append_of_some hF, Environment.assignIn_append_of_some hG]
      exact .inr ⟨_, _, rfl, rfl, F', F₂, G', G₂, rfl, rfl, hl', hls⟩

/-- A stack corresponds to itself frame by frame. -/
theorem refl (hR : ∀ v, R v v) (F : List Frame) :
    Layered R (List.replicate F.length .frame) F F := by
  induction F with
  | nil => exact ⟨rfl, rfl⟩
  | cons f F ih =>
    have hf : f.Related R f := List.forall₂_same.2 fun b _ => ⟨rfl, hR b.2⟩
    exact ⟨[f], F, [f], F, rfl, rfl, .frame hf, ih⟩

/-- Stacks that correspond frame by frame are equal, if only equal values go together. -/
theorem eq_of_frames (hR : ∀ v w, R v w → v = w) {k : Nat}
    (h : Layered R (List.replicate k .frame) F G) : F = G := by
  induction k generalizing F G with
  | zero =>
    obtain ⟨rfl, rfl⟩ := h
    rfl
  | succ k ih =>
    obtain ⟨F₁, F₂, G₁, G₂, rfl, rfl, hl, hls⟩ := h
    cases hl with
    | @frame f g hfg =>
      have heq : f = g := by
        apply List.forall₂_eq_eq_eq.le
        exact hfg.imp fun b c hb => Prod.ext hb.1 (hR _ _ hb.2)
      rw [heq, ih hls]

end Layered

end

/-! ### Machines -/

/-- Two machines whose stacks correspond layer by layer. -/
structure Parallel (R : Value → Value → Prop) (ls : List Layer) (m₁ m₂ : Machine) : Prop where
  layered : Layered R ls m₁.env.frames m₂.env.frames
  nextId : m₁.nextId = m₂.nextId
  printed : m₁.printed = m₂.printed

namespace Parallel

variable {R : Value → Value → Prop} {l : Layer} {ls : List Layer} {m₁ m₂ m₁' m₂' : Machine}

theorem refl (hR : ∀ v, R v v) (m : Machine) :
    Parallel R (List.replicate m.env.depth .frame) m m :=
  ⟨.refl hR m.env.frames, rfl, rfl⟩

/-- A change of the machines that does not concern the stacks. -/
theorem of_env (h : Parallel R ls m₁ m₂) (h₁ : m₁'.env = m₁.env) (h₂ : m₂'.env = m₂.env)
    (hid : m₁'.nextId = m₂'.nextId) (hp : m₁'.printed = m₂'.printed) : Parallel R ls m₁' m₂' :=
  ⟨h₁ ▸ h₂ ▸ h.layered, hid, hp⟩

theorem of_alike (h : Parallel R ls m₁ m₂) (h₁ : m₁'.Alike m₁) (h₂ : m₂'.Alike m₂) :
    Parallel R ls m₁' m₂' :=
  h.of_env h₁.env h₂.env (h₁.nextId.trans (h.nextId.trans h₂.nextId.symm))
    (h₁.printed.trans (h.printed.trans h₂.printed.symm))

theorem assign {x : String} {v w : Value} (h : Parallel R ls m₁ m₂) (hv : R v w) :
    (m₁.env.assign x v = none ∧ m₂.env.assign x w = none) ∨
      ∃ e₁ e₂, m₁.env.assign x v = some e₁ ∧ m₂.env.assign x w = some e₂ ∧
        Parallel R ls { m₁ with env := e₁ } { m₂ with env := e₂ } := by
  have hs := h.layered.assignIn (x := x) hv
  rw [← Environment.frames_assign, ← Environment.frames_assign] at hs
  rcases hs with ⟨h₁, h₂⟩ | ⟨F, G, h₁, h₂, hs⟩
  · exact .inl ⟨Option.map_eq_none_iff.1 h₁, Option.map_eq_none_iff.1 h₂⟩
  · obtain ⟨e₁, he₁, rfl⟩ := Option.map_eq_some_iff.1 h₁
    obtain ⟨e₂, he₂, rfl⟩ := Option.map_eq_some_iff.1 h₂
    exact .inr ⟨e₁, e₂, he₁, he₂, hs, h.nextId, h.printed⟩

theorem push (h : Parallel R ls m₁ m₂) : Parallel R (.frame :: ls) m₁.push m₂.push := by
  refine ⟨?_, by simp [h.nextId], by simp [h.printed]⟩
  rw [Machine.env_push, Machine.env_push]
  exact ⟨[[]], _, [[]], _, rfl, rfl, .frame .nil, h.layered⟩

/-- Machines on which the innermost layer was opened are deeper than those without it. -/
theorem depth_le (hopen : Layered R ls m₁.env.frames m₂.env.frames)
    (h : Parallel R (l :: ls) m₁' m₂') :
    m₁.env.depth ≤ m₁'.env.depth ∧ m₂.env.depth ≤ m₂'.env.depth := by
  have hopen : m₁.env.depth = _ ∧ m₂.env.depth = _ := hopen.length
  have h : m₁'.env.depth = _ ∧ m₂'.env.depth = _ := h.layered.length
  rw [hopen.1, hopen.2, h.1, h.2]
  simp

/-- The innermost layer is released as a whole. -/
theorem release (hopen : Layered R ls m₁.env.frames m₂.env.frames)
    (h : Parallel R (l :: ls) m₁' m₂') :
    Parallel R ls (m₁'.release m₁.env.depth) (m₂'.release m₂.env.depth) := by
  obtain ⟨F₁, F₂, G₁, G₂, hF, hG, -, hls⟩ := h.layered
  have hdepth : m₁.env.depth = F₂.length ∧ m₂.env.depth = G₂.length :=
    ⟨hopen.length.1.trans hls.length.1.symm, hopen.length.2.trans hls.length.2.symm⟩
  have hpos := And.intro m₁.env.depth_pos m₂.env.depth_pos
  rw [hdepth.1, hdepth.2] at hpos
  refine ⟨?_, by simp [h.nextId], by simp [h.printed]⟩
  rw [Machine.env_release, Machine.env_release, hdepth.1, hdepth.2,
    Environment.frames_cutTo_append hF hpos.1, Environment.frames_cutTo_append hG hpos.2]
  exact hls

/-- Whatever goes together, evaluation keeps the layers. -/
def correspondence (P : Pairing) : Correspondence P (List Layer) where
  related := Parallel P.value
  lookup h _ := h.layered.lookupIn _
  define h _ hv := ⟨h.layered.set hv, h.nextId, h.printed⟩
  assign h _ _ hv := h.assign hv
  print line h := h.of_env rfl rfl h.nextId (by simp [Machine.print, h.printed])
  note h _ := h.of_env (Machine.env_note _ _) (Machine.env_note _ _) (by simp [h.nextId])
    (by simp [h.printed])
  nextId_eq h := h.nextId
  fresh h := h.of_env rfl rfl (by simp [h.nextId]) h.printed
  opened ls m₁ m₂ ls' := ls' = .frame :: ls ∧ Layered P.value ls m₁.env.frames m₂.env.frames
  enter h := ⟨_, ⟨rfl, h.layered⟩, h.push⟩
  leave := by
    rintro ls _ m₁ m₂ m₁' m₂' ⟨rfl, hopen⟩ h
    exact release hopen h

end Parallel

/-! ### Nested frames -/

theorem frames_push_iterate (k : Nat) (m : Machine) :
    (Machine.push^[k] m).env.frames = List.replicate k [] ++ m.env.frames ∧
      (Machine.push^[k] m).nextId = m.nextId ∧ (Machine.push^[k] m).printed = m.printed := by
  induction k with
  | zero => exact ⟨rfl, rfl, rfl⟩
  | succ k ih =>
    obtain ⟨hframes, hid, hprinted⟩ := ih
    rw [Function.iterate_succ_apply']
    refine ⟨?_, by simp [hid], by simp [hprinted]⟩
    rw [Machine.env_push, List.replicate_succ, List.cons_append, ← hframes]
    rfl

theorem lookupIn_replicate_append (x : String) (k : Nat) (F : List Frame) :
    Environment.lookupIn x (List.replicate k [] ++ F) = Environment.lookupIn x F := by
  induction k with
  | zero => rfl
  | succ k ih =>
    rw [List.replicate_succ, List.cons_append, Environment.lookupIn_cons, ih]
    rfl

/-- Frames that are pushed within a frame make up a group with it. -/
theorem Parallel.group {R : Value → Value → Prop} {ls : List Layer} {m₁ m₂ : Machine}
    (h : Parallel R (.frame :: ls) m₁ m₂) (p q : Nat) :
    Parallel R (.group p q :: ls) (Machine.push^[p] m₁) (Machine.push^[q] m₂) := by
  obtain ⟨hF, hid₁, hp₁⟩ := frames_push_iterate p m₁
  obtain ⟨hG, hid₂, hp₂⟩ := frames_push_iterate q m₂
  refine ⟨?_, by rw [hid₁, hid₂, h.nextId], by rw [hp₁, hp₂, h.printed]⟩
  obtain ⟨F₁, F₂, G₁, G₂, hF', hG', hl, hls⟩ := h.layered
  refine ⟨List.replicate p [] ++ F₁, F₂, List.replicate q [] ++ G₁, G₂, ?_, ?_, ?_, hls⟩
  · rw [hF, hF', List.append_assoc]
  · rw [hG, hG', List.append_assoc]
  · refine .group ?_ ?_ fun x => ?_
    · rw [List.length_append, List.length_replicate, hl.length_left]
      rfl
    · rw [List.length_append, List.length_replicate, hl.length_right]
      rfl
    · rw [lookupIn_replicate_append, lookupIn_replicate_append]
      exact hl.lookupIn x

/-- Doing something in nested frames is doing it after pushing so many frames. What is left then
differs by frames only that are gone once the frame around them is released. -/
theorem Action.inFrame_iterate {α : Type} (k : Nat) (x : Action α) (m : Machine) :
    (x (Machine.push^[k] m) = .exhausted ∧ inFrame^[k] x m = .exhausted) ∨
      ∃ r n m', x (Machine.push^[k] m) = .done r n ∧ inFrame^[k] x m = .done r m' ∧
        ∀ d, 0 < d → d ≤ m.env.depth → (m'.release d).Alike (n.release d) := by
  induction k generalizing m with
  | zero =>
    cases hx : x m with
    | exhausted => exact .inl ⟨hx, hx⟩
    | done r n => exact .inr ⟨r, n, n, hx, hx, fun d _ _ => .refl _⟩
  | succ k ih =>
    rw [Function.iterate_succ_apply Machine.push, Function.iterate_succ_apply' inFrame]
    rcases ih m.push with ⟨hx, hy⟩ | ⟨r, n, m', hx, hy, hrelease⟩
    · exact .inl ⟨hx, inFrame_of_exhausted hy⟩
    · refine .inr ⟨r, n, m'.release m.env.depth, hx, inFrame_of_done hy, fun d hd hle => ?_⟩
      have hcut : ((m'.release m.env.depth).release d).Alike (m'.release d) :=
        ⟨by simp [Environment.cutTo_cutTo hd hle], by simp, by simp⟩
      refine hcut.trans (hrelease d hd ?_)
      rw [Machine.env_push, Environment.depth_push]
      omega

/-- **What is done in a frame may be done in any number of nested frames.** -/
theorem follows_nested {P : Pairing} {α : Type} {Q : α → α → Prop} {x y : Action α}
    (hxy : (Parallel.correspondence P).Follows Q x y) (p q : Nat) :
    (Parallel.correspondence P).FollowsInside Q (Action.inFrame^[p] x) (Action.inFrame^[q] y) := by
  rintro ls _ m₁ m₂ ⟨rfl, hopen⟩ n₁ n₂ r n₁' hn h
  obtain ⟨hd₁, hd₂⟩ := Parallel.depth_le hopen hn
  rcases Action.inFrame_iterate p x n₁ with ⟨-, hx⟩ | ⟨r', k₁, k₁', hx, hx', hrelease₁⟩
  · cases h.symm.trans hx
  · cases h.symm.trans hx'
    -- The frames that are pushed and the one around them are a group, which is released as a whole.
    obtain ⟨s, k₂, hy, hk, hs⟩ := hxy _ (hn.group p q) hx
    rcases Action.inFrame_iterate q y n₂ with ⟨hy', -⟩ | ⟨s', _, k₂', hy', hy'', hrelease₂⟩
    · cases hy.symm.trans hy'
    · cases hy.symm.trans hy'
      refine ⟨s, k₂', hy'', (Parallel.release hopen hk).of_alike ?_ ?_, hs⟩
      · exact hrelease₁ _ m₁.env.depth_pos hd₁
      · exact hrelease₂ _ m₂.env.depth_pos hd₂

end Lisplet
