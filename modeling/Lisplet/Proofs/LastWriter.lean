import Mathlib.Data.List.Forall2
import Mathlib.Data.List.Infix
import Lisplet.Interpreter
import Lisplet.Proofs.Layers

/-!
# The last writer

An environment is used by pushing frames, by releasing them again in whatever order and however
often, by defining names and by assigning to them. What a name means then follows from the history
of these operations alone: the frames that are still there are known by when they were pushed, and
each of them has the values that were last written to it.

A history lists operations, newest first, so that what happened before an operation is what follows
it in the list. Frames are numbered by the operations that pushed them, counted from 1; the frame of
the start has the number 0.

* `Operation`, `Usage`, `Usage.after`: operations, and an environment after a history of them;
* `Survives`, `Innermost`, `HasBound`, `Nearest`: frames and names, by the history;
* `Writes`, `LastWritten`: what is written, and what is written last;
* `stack`, `mem_stack_iff`: the numbers of the frames that are there;
* `contents_after`: every frame has what was last written to it;
* `lookup_is_last_written`: what names mean after a history.
-/

namespace Lisplet

/-! ### Environments -/

namespace Environment

theorem assign_eq_none_iff {e : Environment} {x : String} {v : Value} :
    e.assign x v = none ↔ e.lookup x = none := by
  rw [← Option.map_eq_none_iff (f := frames), frames_assign]
  exact assignIn_eq_none_iff

/-- The frames that stay are the outermost ones. -/
theorem frames_cutTo_eq_drop {d : Nat} (hd : 0 < d) (e : Environment) :
    (e.cutTo d).frames = e.frames.drop (e.depth - d) := by
  rcases Nat.lt_or_ge d e.depth with h | h
  · have hlen : (e.frames.drop (e.depth - d)).length = d := by
      rw [List.length_drop]
      show e.depth - (e.depth - d) = d
      omega
    have hsplit := (List.take_append_drop (e.depth - d) e.frames).symm
    have hcut := frames_cutTo_append hsplit (by rwa [hlen])
    rwa [hlen] at hcut
  · rw [cutTo, Nat.sub_eq_zero_of_le h]
    rfl

theorem depth_cutTo {d : Nat} (hd : 0 < d) (e : Environment) :
    (e.cutTo d).depth = min e.depth d := by
  have := e.depth_pos
  rw [cutTo, depth_drop]
  omega

end Environment

/-! ### Operations -/

/-- What can be done to an environment. -/
inductive Operation where
  | push
  /-- Call the release of a push, the pushes being numbered from 0. -/
  | release (number : Nat)
  | define (name : String) (value : Value)
  | assign (name : String) (value : Value)

def Operation.isPush : Operation → Bool
  | .push => true
  | _ => false

/-- An environment and the releases that were handed out. -/
structure Usage where
  env : Environment
  /-- The depth that the release of each push goes back to, oldest first. -/
  releases : List Nat := []

namespace Usage

/-- Do an operation. A name that is bound nowhere cannot be assigned to. -/
def step (u : Usage) : Operation → Usage
  | .push => ⟨u.env.push, u.releases ++ [u.env.depth]⟩
  | .release number =>
    match u.releases[number]? with
    | some depth => { u with env := u.env.cutTo depth }
    | none => u
  | .define name value => { u with env := u.env.define name value }
  | .assign name value => { u with env := (u.env.assign name value).getD u.env }

/-- An environment that had only the frame `base`, after a history of operations. -/
def after (base : Frame) : List Operation → Usage
  | [] => ⟨⟨base, []⟩, []⟩
  | op :: past => (after base past).step op

section

variable (base : Frame)

/-! ### What a history says -/

/-- The depth of the stack after a history. -/
def depthAfter (h : List Operation) : Nat := (Usage.after base h).env.depth

/-- The number of pushes in a history, which is the number that the release of a next one gets. -/
def pushes (h : List Operation) : Nat := h.countP Operation.isPush

/-- A frame is still there if it is the one of the start, or if the stack has been deeper than
before its push ever since. -/
def Survives (h : List Operation) (f : Nat) : Prop :=
  f = 0 ∨ ∃ past, .push :: past <:+ h ∧ f = past.length + 1 ∧
    ∀ now, .push :: past <:+ now → now <:+ h → depthAfter base past < depthAfter base now

/-- The frame that was pushed last of those that are there. -/
def Innermost (h : List Operation) (f : Nat) : Prop :=
  Survives base h f ∧ ∀ g, Survives base h g → g ≤ f

/-- A name was bound in a frame: from the start, or by a definition while it was innermost. -/
def HasBound (h : List Operation) (f : Nat) (x : String) : Prop :=
  f = 0 ∧ (base.get? x).isSome ∨ ∃ v past, .define x v :: past <:+ h ∧ Innermost base past f

/-- The innermost of the frames that are there in which a name was bound. -/
def Nearest (h : List Operation) (x : String) (f : Nat) : Prop :=
  Survives base h f ∧ HasBound base h f x ∧ ∀ g, Survives base h g → HasBound base h g x → g ≤ f

/-- An operation writes a value to a name in a frame: it defines the name while the frame is
innermost, or assigns to it while the frame is the nearest that has it. -/
def Writes (past : List Operation) (op : Operation) (f : Nat) (x : String) (v : Value) : Prop :=
  op = .define x v ∧ Innermost base past f ∨ op = .assign x v ∧ Nearest base past x f

/-- The last value that was written to a name in a frame; if none was, then the frame of the start
has the value it started with. -/
def LastWritten (h : List Operation) (f : Nat) (x : String) (v : Value) : Prop :=
  (∃ op past, op :: past <:+ h ∧ Writes base past op f x v ∧
    ∀ op' now w, op' :: now <:+ h → op :: past <:+ now → ¬ Writes base now op' f x w) ∨
  f = 0 ∧ base.get? x = some v ∧ ∀ op past w, op :: past <:+ h → ¬ Writes base past op f x w

/-! ### The frames that are there -/

/-- The numbers of the frames that are there, innermost first. -/
def stack : List Operation → List Nat
  | [] => [0]
  | .push :: past => (past.length + 1) :: stack past
  | .release number :: past =>
    match (Usage.after base past).releases[number]? with
    | some depth => (stack past).drop ((stack past).length - depth)
    | none => stack past
  | .define _ _ :: past => stack past
  | .assign _ _ :: past => stack past

variable {base}

/-- A push adds a frame, and every other operation leaves the frames as they are or removes some. -/
theorem stack_cons (base : Frame) (op : Operation) (past : List Operation) :
    op = .push ∧ stack base (op :: past) = (past.length + 1) :: stack base past ∨
      stack base (op :: past) <:+ stack base past := by
  cases op with
  | push => exact .inl ⟨rfl, rfl⟩
  | release number =>
    right
    rw [stack]
    split
    · exact List.drop_suffix _ _
    · exact List.suffix_refl _
  | define x v => exact .inr (List.suffix_refl _)
  | assign x v => exact .inr (List.suffix_refl _)

theorem releases_step (u : Usage) (op : Operation) :
    (u.step op).releases = u.releases ++ if op.isPush then [u.env.depth] else [] := by
  cases op with
  | push => rfl
  | release number =>
    rw [step]
    split <;> exact (List.append_nil _).symm
  | define x v => exact (List.append_nil _).symm
  | assign x v => exact (List.append_nil _).symm

theorem releases_pos (base : Frame) (h : List Operation) :
    ∀ d ∈ (after base h).releases, 0 < d := by
  induction h with
  | nil => simp [after]
  | cons op past ih =>
    intro d hd
    rw [after, releases_step] at hd
    rcases List.mem_append.1 hd with hd | hd
    · exact ih d hd
    · split at hd
      · rw [List.mem_singleton.1 hd]
        exact Environment.depth_pos _
      · cases hd

theorem length_releases (base : Frame) (h : List Operation) :
    (after base h).releases.length = pushes h := by
  induction h with
  | nil => rfl
  | cons op past ih =>
    rw [after, releases_step, List.length_append, ih, pushes, pushes, List.countP_cons]
    split <;> rfl

/-- The release of a push goes back to the depth before it. -/
theorem releases_of_push {h past : List Operation} (hpush : .push :: past <:+ h) :
    (after base h).releases[pushes past]? = some (depthAfter base past) := by
  induction h with
  | nil => simp at hpush
  | cons op now ih =>
    rw [after, releases_step]
    rcases List.suffix_cons_iff.1 hpush with heq | hbefore
    · cases heq
      rw [← length_releases base past]
      exact List.getElem?_concat_length
    · have hsome := ih hbefore
      have hlt := (List.getElem?_eq_some_iff.1 hsome).1
      rwa [List.getElem?_append_left hlt]

theorem depth_step_assign (u : Usage) (x : String) (v : Value) :
    (u.step (.assign x v)).env.depth = u.env.depth := by
  rw [step]
  cases h : u.env.assign x v with
  | none => rfl
  | some e => exact (Environment.Keeps.assign h).depth_eq

theorem length_stack (base : Frame) (h : List Operation) :
    (stack base h).length = depthAfter base h := by
  induction h with
  | nil => rfl
  | cons op past ih =>
    cases op with
    | push =>
      rw [stack, List.length_cons, ih]
      rfl
    | release number =>
      rw [stack, depthAfter, after, step]
      split
      · rename_i d hd
        have hpos := releases_pos base past d (List.mem_of_getElem? hd)
        rw [List.length_drop, ih, Environment.depth_cutTo hpos]
        show depthAfter base past - (depthAfter base past - d) = min (depthAfter base past) d
        omega
      · exact ih
    | define x v => exact ih
    | assign x v => exact ih.trans (depth_step_assign _ x v).symm

/-- The frame of the start is always there, outermost. -/
theorem exists_stack_eq (base : Frame) (h : List Operation) :
    ∃ inner, stack base h = inner ++ [0] := by
  induction h with
  | nil => exact ⟨[], rfl⟩
  | cons op past ih =>
    obtain ⟨inner, hinner⟩ := ih
    rcases stack_cons base op past with ⟨-, hpush⟩ | hsuffix
    · exact ⟨(past.length + 1) :: inner, by rw [hpush, hinner]; rfl⟩
    · rw [hinner, List.suffix_concat_iff] at hsuffix
      rcases hsuffix with hnil | ⟨inner', heq, -⟩
      · have hlen := length_stack base (op :: past)
        have hpos : 0 < depthAfter base (op :: past) := Environment.depth_pos _
        rw [hnil, List.length_nil] at hlen
        omega
      · exact ⟨inner', by rw [heq]⟩

theorem le_of_mem_stack {h : List Operation} {f : Nat} (hf : f ∈ stack base h) : f ≤ h.length := by
  induction h with
  | nil => simpa [stack] using hf
  | cons op past ih =>
    rw [List.length_cons]
    rcases stack_cons base op past with ⟨-, hpush⟩ | hsuffix
    · rw [hpush] at hf
      rcases List.mem_cons.1 hf with rfl | hf
      · exact Nat.le_refl _
      · exact Nat.le_succ_of_le (ih hf)
    · exact Nat.le_succ_of_le (ih (hsuffix.subset hf))

/-- Frames further in were pushed later. -/
theorem pairwise_stack (base : Frame) (h : List Operation) : (stack base h).Pairwise (· > ·) := by
  induction h with
  | nil => simp [stack]
  | cons op past ih =>
    rcases stack_cons base op past with ⟨-, hpush⟩ | hsuffix
    · rw [hpush, List.pairwise_cons]
      exact ⟨fun f hf => Nat.lt_succ_of_le (le_of_mem_stack hf), ih⟩
    · exact ih.sublist hsuffix.sublist

/-- Below a frame is what was there before its push, and the stack has been deeper ever since. -/
theorem pushed_of_suffix {h : List Operation} {f : Nat} {below : List Nat}
    (hf : f :: below <:+ stack base h) :
    f = 0 ∨ ∃ past, .push :: past <:+ h ∧ f = past.length + 1 ∧
      depthAfter base past = below.length ∧
      ∀ now, .push :: past <:+ now → now <:+ h → depthAfter base past < depthAfter base now := by
  induction h with
  | nil =>
    have hmem : f ∈ [0] := hf.subset (List.mem_cons_self ..)
    exact .inl (List.mem_singleton.1 hmem)
  | cons op past ih =>
    -- A frame that was there before is deeper than its place as long as it is there.
    have hkeep : f :: below <:+ stack base past → f = 0 ∨ ∃ past', .push :: past' <:+ op :: past ∧
        f = past'.length + 1 ∧ depthAfter base past' = below.length ∧
        ∀ now, .push :: past' <:+ now → now <:+ op :: past →
          depthAfter base past' < depthAfter base now := by
      intro hbefore
      refine (ih hbefore).imp_right ?_
      rintro ⟨past', hpush, hnumber, hdepth, hsince⟩
      refine ⟨past', hpush.trans (List.suffix_cons _ _), hnumber, hdepth, fun now hnow hle => ?_⟩
      rcases List.suffix_cons_iff.1 hle with rfl | hle
      · have hlen := hf.length_le
        rw [length_stack, List.length_cons] at hlen
        omega
      · exact hsince now hnow hle
    rcases stack_cons base op past with ⟨rfl, hpush⟩ | hsuffix
    · rw [hpush] at hf
      rcases List.suffix_cons_iff.1 hf with heq | hbefore
      · cases heq
        have hdepth := (length_stack base past).symm
        refine .inr ⟨past, List.suffix_refl _, rfl, hdepth, fun now hnow hle => ?_⟩
        rw [hle.eq_of_length_le hnow.length_le]
        exact Nat.lt_succ_self _
      · exact hkeep hbefore
    · exact hkeep (hf.trans hsuffix)

theorem mem_stack_of_survives {h : List Operation} {f : Nat} (hf : Survives base h f) :
    f ∈ stack base h := by
  rcases hf with rfl | ⟨past, hpush, rfl, hsince⟩
  · obtain ⟨inner, hinner⟩ := exists_stack_eq base h
    rw [hinner]
    exact List.mem_append_right _ (List.mem_singleton.2 rfl)
  · induction h with
    | nil => simp at hpush
    | cons op now ih =>
      rcases List.suffix_cons_iff.1 hpush with heq | hbefore
      · cases heq
        exact List.mem_cons_self ..
      · have hmem := ih hbefore fun m hm hle => hsince m hm (hle.trans (List.suffix_cons _ _))
        rcases stack_cons base op now with ⟨-, hop⟩ | hsuffix
        · rw [hop]
          exact List.mem_cons_of_mem _ hmem
        · -- What is left of the stack is deeper than the place of the frame.
          obtain ⟨inner, below, hsplit⟩ := List.append_of_mem hmem
          have hbelow : (past.length + 1) :: below <:+ stack base now := ⟨inner, hsplit.symm⟩
          rcases pushed_of_suffix hbelow with hzero | ⟨past', hpush', hnumber, hdepth, -⟩
          · omega
          · obtain rfl : past' = past := by
              have hlen : past'.length = past.length := by omega
              have hle : Operation.push :: past' <:+ .push :: past :=
                List.suffix_of_suffix_length_le hpush' hbefore (by simp [hlen])
              exact (List.cons.inj (hle.eq_of_length (by simp [hlen]))).2
            have hdeep := hsince (op :: now) hpush (List.suffix_refl _)
            rw [hdepth, ← length_stack] at hdeep
            exact (List.suffix_of_suffix_length_le hbelow hsuffix hdeep).subset
              (List.mem_cons_self ..)

/-- The frames on the stack are those that survive. -/
theorem mem_stack_iff {h : List Operation} {f : Nat} : f ∈ stack base h ↔ Survives base h f := by
  refine ⟨fun hf => ?_, mem_stack_of_survives⟩
  obtain ⟨inner, below, hsplit⟩ := List.append_of_mem hf
  refine (pushed_of_suffix ⟨inner, hsplit.symm⟩).imp_right ?_
  rintro ⟨past, hpush, hnumber, -, hsince⟩
  exact ⟨past, hpush, hnumber, hsince⟩

theorem Survives.le_length {h : List Operation} {f : Nat} (hf : Survives base h f) :
    f ≤ h.length := le_of_mem_stack (mem_stack_of_survives hf)

/-- The innermost frame is the first one on the stack. -/
theorem innermost_iff {h : List Operation} {f g : Nat} {below : List Nat}
    (hstack : stack base h = f :: below) : Innermost base h g ↔ g = f := by
  have hsorted := pairwise_stack base h
  rw [hstack, List.pairwise_cons] at hsorted
  have hf : Survives base h f := mem_stack_iff.1 (by simp [hstack])
  have hle : ∀ k, Survives base h k → k ≤ f := by
    intro k hk
    have hmem := mem_stack_of_survives hk
    rw [hstack] at hmem
    rcases List.mem_cons.1 hmem with rfl | hmem
    · exact Nat.le_refl _
    · exact Nat.le_of_lt (hsorted.1 k hmem)
  constructor
  · rintro ⟨hg, hmax⟩
    exact Nat.le_antisymm (hle g hg) (hmax f hf)
  · rintro rfl
    exact ⟨hf, hle⟩

/-! ### What was written -/

theorem not_writes {past : List Operation} {op : Operation}
    (hop : ∀ x v, op ≠ .define x v ∧ op ≠ .assign x v) (f : Nat) (x : String) (v : Value) :
    ¬ Writes base past op f x v := by
  rintro (⟨h, -⟩ | ⟨h, -⟩)
  · exact (hop x v).1 h
  · exact (hop x v).2 h

theorem writes_define_iff {past : List Operation} {f g : Nat} {below : List Nat} {x y : String}
    {v w : Value} (hstack : stack base past = f :: below) :
    Writes base past (.define x v) g y w ↔ (y = x ∧ w = v) ∧ g = f := by
  rw [Writes, innermost_iff hstack]
  constructor
  · rintro (⟨hop, rfl⟩ | ⟨hop, -⟩)
    · cases hop
      exact ⟨⟨rfl, rfl⟩, rfl⟩
    · cases hop
  · rintro ⟨⟨rfl, rfl⟩, rfl⟩
    exact .inl ⟨rfl, rfl⟩

theorem writes_assign_iff {past : List Operation} {f : Nat} {x y : String} {v w : Value} :
    Writes base past (.assign x v) f y w ↔ (y = x ∧ w = v) ∧ Nearest base past x f := by
  constructor
  · rintro (⟨hop, -⟩ | ⟨hop, hnear⟩)
    · cases hop
    · cases hop
      exact ⟨⟨rfl, rfl⟩, hnear⟩
  · rintro ⟨⟨rfl, rfl⟩, hnear⟩
    exact .inr ⟨rfl, hnear⟩

theorem hasBound_cons {op : Operation} {past : List Operation} {f : Nat} {x : String} :
    HasBound base (op :: past) f x ↔
      (∃ v, op = .define x v ∧ Innermost base past f) ∨ HasBound base past f x := by
  constructor
  · rintro (hstart | ⟨v, past', hdefine, hin⟩)
    · exact .inr (.inl hstart)
    · rcases List.suffix_cons_iff.1 hdefine with heq | hbefore
      · cases heq
        exact .inl ⟨v, rfl, hin⟩
      · exact .inr (.inr ⟨v, past', hbefore, hin⟩)
  · rintro (⟨v, rfl, hin⟩ | hstart | ⟨v, past', hdefine, hin⟩)
    · exact .inr ⟨v, past, List.suffix_refl _, hin⟩
    · exact .inl hstart
    · exact .inr ⟨v, past', hdefine.trans (List.suffix_cons _ _), hin⟩

/-- What was written last is what the last operation writes, if it does, or else what was written
last before it. -/
theorem lastWritten_cons {op : Operation} {past : List Operation} {f : Nat} {x : String}
    {v : Value} :
    LastWritten base (op :: past) f x v ↔
      Writes base past op f x v ∨
        LastWritten base past f x v ∧ ∀ w, ¬ Writes base past op f x w := by
  constructor
  · rintro (⟨op', past', hop, hwrite, hlater⟩ | ⟨hf, hv, hnone⟩)
    · rcases List.suffix_cons_iff.1 hop with heq | hbefore
      · cases heq
        exact .inl hwrite
      · refine .inr ⟨.inl ⟨op', past', hbefore, hwrite, fun op'' now w hnow hle => ?_⟩, fun w => ?_⟩
        · exact hlater op'' now w (hnow.trans (List.suffix_cons _ _)) hle
        · exact hlater op past w (List.suffix_refl _) hbefore
    · refine .inr ⟨.inr ⟨hf, hv, fun op' past' w h => ?_⟩, fun w => ?_⟩
      · exact hnone op' past' w (h.trans (List.suffix_cons _ _))
      · exact hnone op past w (List.suffix_refl _)
  · rintro (hwrite | ⟨⟨op', past', hop, hwrite, hlater⟩ | ⟨hf, hv, hnone⟩, hnot⟩)
    · refine .inl ⟨op, past, List.suffix_refl _, hwrite, fun op' now w hnow hle => ?_⟩
      have h₁ := hnow.length_le
      have h₂ := hle.length_le
      simp only [List.length_cons] at h₁ h₂
      omega
    · have hop' := hop.trans (List.suffix_cons op past)
      refine .inl ⟨op', past', hop', hwrite, fun op'' now w hnow hle => ?_⟩
      rcases List.suffix_cons_iff.1 hnow with heq | hbefore
      · cases heq
        exact hnot w
      · exact hlater op'' now w hbefore hle
    · refine .inr ⟨hf, hv, fun op' past' w h => ?_⟩
      rcases List.suffix_cons_iff.1 h with heq | hbefore
      · cases heq
        exact hnot w
      · exact hnone op' past' w hbefore

theorem lastWritten_nil {f : Nat} {x : String} {v : Value} :
    LastWritten base [] f x v ↔ f = 0 ∧ base.get? x = some v := by
  constructor
  · rintro (⟨op, past, hop, -⟩ | ⟨hf, hv, -⟩)
    · simp at hop
    · exact ⟨hf, hv⟩
  · rintro ⟨hf, hv⟩
    exact .inr ⟨hf, hv, fun op past w h => by simp at h⟩

/-- A name was bound in a frame if and only if there is a value that was written last. -/
theorem hasBound_iff {h : List Operation} {f : Nat} {x : String} :
    HasBound base h f x ↔ ∃ v, LastWritten base h f x v := by
  induction h with
  | nil =>
    simp only [lastWritten_nil, exists_and_left]
    rw [← Option.isSome_iff_exists]
    constructor
    · rintro (hstart | ⟨v, past, hdefine, -⟩)
      · exact hstart
      · simp at hdefine
    · exact .inl
  | cons op past ih =>
    rw [hasBound_cons, ih]
    simp only [lastWritten_cons]
    constructor
    · rintro (⟨v, rfl, hin⟩ | ⟨v, hv⟩)
      · exact ⟨v, .inl (.inl ⟨rfl, hin⟩)⟩
      · by_cases hw : ∃ w, Writes base past op f x w
        · obtain ⟨w, hw⟩ := hw
          exact ⟨w, .inl hw⟩
        · exact ⟨v, .inr ⟨hv, fun w hw' => hw ⟨w, hw'⟩⟩⟩
    · rintro ⟨v, (⟨rfl, hin⟩ | ⟨-, hnear⟩) | ⟨hv, -⟩⟩
      · exact .inl ⟨v, rfl, hin⟩
      · exact .inr (ih.1 hnear.2.1)
      · exact .inr ⟨v, hv⟩

theorem LastWritten.le_length {h : List Operation} {f : Nat} {x : String} {v : Value}
    (hv : LastWritten base h f x v) : f ≤ h.length := by
  rcases hasBound_iff.2 ⟨v, hv⟩ with ⟨rfl, -⟩ | ⟨w, past, hdefine, hin⟩
  · exact Nat.zero_le _
  · have hlen := hdefine.length_le
    have hle := hin.1.le_length
    rw [List.length_cons] at hlen
    omega

/-! ### What the frames have -/

/-- A frame has the values that were last written to the frame of a number. -/
def Contains (base : Frame) (h : List Operation) (f : Nat) (frame : Frame) : Prop :=
  ∀ x v, frame.get? x = some v ↔ LastWritten base h f x v

theorem Contains.hasBound_iff {h : List Operation} {f : Nat} {frame : Frame}
    (hf : Contains base h f frame) (x : String) :
    HasBound base h f x ↔ (frame.get? x).isSome = true := by
  rw [Usage.hasBound_iff, Option.isSome_iff_exists]
  simp only [hf x]

/-- An operation that writes nothing to a frame. -/
theorem Contains.cons {past : List Operation} {f : Nat} {frame : Frame}
    (hf : Contains base past f frame) {op : Operation}
    (hop : ∀ x v, ¬ Writes base past op f x v) : Contains base (op :: past) f frame := by
  intro x v
  rw [hf x v, lastWritten_cons]
  exact ⟨fun hv => .inr ⟨hv, hop x⟩, fun hv => (hv.resolve_left (hop x v)).1⟩

/-- An operation that writes one name to a frame. -/
theorem Contains.set {past : List Operation} {f : Nat} {frame : Frame}
    (hf : Contains base past f frame) {op : Operation} {x : String} {v : Value}
    (hop : ∀ y w, Writes base past op f y w ↔ y = x ∧ w = v) :
    Contains base (op :: past) f (frame.set x v) := by
  intro y w
  simp only [Frame.get?_set, lastWritten_cons, hop]
  by_cases hy : y = x
  · simp [hy, eq_comm]
  · simp [hy, hf y w]

theorem contains_of_not_writes {past : List Operation} {op : Operation} {numbers : List Nat}
    {frames : List Frame} (hall : List.Forall₂ (Contains base past) numbers frames)
    (hop : ∀ f ∈ numbers, ∀ x v, ¬ Writes base past op f x v) :
    List.Forall₂ (Contains base (op :: past)) numbers frames := by
  induction hall with
  | nil => exact .nil
  | cons hf _ ih =>
    rw [List.forall_mem_cons] at hop
    exact .cons (hf.cons hop.1) (ih hop.2)

/-- Frames of a stack among which are all those with a given name. -/
structure Reaches (base : Frame) (h : List Operation) (x : String) (numbers : List Nat) : Prop where
  sorted : numbers.Pairwise (· > ·)
  there : ∀ f ∈ numbers, Survives base h f
  bound : ∀ f, Survives base h f → HasBound base h f x → f ∈ numbers

theorem reaches_stack (base : Frame) (h : List Operation) (x : String) :
    Reaches base h x (stack base h) where
  sorted := pairwise_stack base h
  there _ hf := mem_stack_iff.1 hf
  bound _ hf _ := mem_stack_of_survives hf

namespace Reaches

variable {h : List Operation} {x : String} {f : Nat} {numbers : List Nat}

/-- The first of them is the nearest frame with the name, if it has it. -/
theorem nearest (hr : Reaches base h x (f :: numbers)) (hf : HasBound base h f x) :
    Nearest base h x f := by
  refine ⟨hr.there f (List.mem_cons_self ..), hf, fun g hg hbound => ?_⟩
  rcases List.mem_cons.1 (hr.bound g hg hbound) with rfl | hmem
  · exact Nat.le_refl _
  · exact Nat.le_of_lt (List.rel_of_pairwise_cons hr.sorted hmem)

/-- It can be left out if it does not. -/
theorem tail (hr : Reaches base h x (f :: numbers)) (hf : ¬ HasBound base h f x) :
    Reaches base h x numbers where
  sorted := hr.sorted.of_cons
  there g hg := hr.there g (List.mem_cons_of_mem _ hg)
  bound g hg hbound := by
    rcases List.mem_cons.1 (hr.bound g hg hbound) with rfl | hmem
    · exact absurd hbound hf
    · exact hmem

/-- If a frame has the name, then there is a nearest one. -/
theorem exists_nearest (hr : Reaches base h x numbers) (hf : Survives base h f)
    (hbound : HasBound base h f x) : ∃ g, Nearest base h x g := by
  induction numbers with
  | nil => exact absurd (hr.bound f hf hbound) (by simp)
  | cons g numbers ih =>
    by_cases hg : HasBound base h g x
    · exact ⟨g, hr.nearest hg⟩
    · exact ih (hr.tail hg)

end Reaches

theorem Nearest.eq {h : List Operation} {x : String} {f g : Nat} (hf : Nearest base h x f)
    (hg : Nearest base h x g) : f = g :=
  Nat.le_antisymm (hg.2.2 f hf.1 hf.2.1) (hf.2.2 g hg.1 hg.2.1)

/-- A name means what was last written to it in the nearest frame that has it. -/
theorem lookupIn_eq_some_iff {h : List Operation} {x : String} {numbers : List Nat}
    {frames : List Frame} (hall : List.Forall₂ (Contains base h) numbers frames)
    (hr : Reaches base h x numbers) {v : Value} :
    Environment.lookupIn x frames = some v ↔
      ∃ f, Nearest base h x f ∧ LastWritten base h f x v := by
  induction hall with
  | nil =>
    refine ⟨fun hv => (by cases hv), ?_⟩
    rintro ⟨f, hf, -⟩
    exact absurd (hr.bound f hf.1 hf.2.1) (by simp)
  | @cons f frame numbers frames hf _ ih =>
    have hbound := hf.hasBound_iff x
    rw [Environment.lookupIn_cons]
    cases hx : frame.get? x with
    | none =>
      rw [hx] at hbound
      rw [Option.none_or]
      exact ih (hr.tail fun h => by simpa using hbound.1 h)
    | some w =>
      rw [hx] at hbound
      have hnear := hr.nearest (hbound.2 rfl)
      rw [Option.some_or, ← hx, hf x v]
      constructor
      · exact fun hv => ⟨f, hnear, hv⟩
      · rintro ⟨g, hg, hv⟩
        rwa [hnear.eq hg]

/-- An assignment writes to the nearest frame that has the name. -/
theorem contains_assignIn {past : List Operation} {x : String} {v : Value} {numbers : List Nat}
    {frames frames' : List Frame} (hall : List.Forall₂ (Contains base past) numbers frames)
    (hr : Reaches base past x numbers)
    (hassign : Environment.assignIn x v frames = some frames') :
    List.Forall₂ (Contains base (.assign x v :: past)) numbers frames' := by
  induction hall generalizing frames' with
  | nil => cases hassign
  | @cons f frame numbers frames hf hrest ih =>
    have hbound := hf.hasBound_iff x
    rw [Environment.assignIn] at hassign
    cases hx : frame.get? x with
    | none =>
      rw [hx] at hassign hbound
      obtain ⟨frames'', hrec, rfl⟩ := Option.map_eq_some_iff.1 hassign
      have hnot : ¬ HasBound base past f x := fun h => by simpa using hbound.1 h
      refine .cons (hf.cons fun y w hw => ?_) (ih (hr.tail hnot) hrec)
      exact hnot (writes_assign_iff.1 hw).2.2.1
    | some w =>
      rw [hx] at hassign hbound
      cases hassign
      have hnear := hr.nearest (hbound.2 rfl)
      refine .cons (hf.set fun y u => ?_) (contains_of_not_writes hrest fun g hg y u hw => ?_)
      · exact writes_assign_iff.trans (and_iff_left hnear)
      · -- The frames further out are not the nearest one.
        have hlt := List.rel_of_pairwise_cons hr.sorted hg
        rw [hnear.eq (writes_assign_iff.1 hw).2] at hlt
        exact Nat.lt_irrefl _ hlt

/-- Nothing was written to a frame before it was pushed. -/
theorem contains_nil {past : List Operation} {f : Nat} (hf : past.length < f) :
    Contains base past f [] := by
  intro x v
  refine ⟨fun hv => (by cases hv), fun hv => ?_⟩
  exact absurd hv.le_length (Nat.not_le.2 hf)

/-- Every frame has what was last written to it. -/
theorem contents_after (base : Frame) (h : List Operation) :
    List.Forall₂ (Contains base h) (stack base h) (after base h).env.frames := by
  induction h with
  | nil =>
    refine .cons (fun x v => ?_) .nil
    rw [lastWritten_nil]
    exact ⟨fun hv => ⟨rfl, hv⟩, fun hv => hv.2⟩
  | cons op past ih =>
    cases op with
    | push =>
      have hnot : ∀ f x v, ¬ Writes base past .push f x v := not_writes (by simp)
      have hnew := (contains_nil (Nat.lt_succ_self past.length)).cons (hnot _)
      exact .cons hnew (contains_of_not_writes ih fun f _ => hnot f)
    | release number =>
      have hnot : ∀ f x v, ¬ Writes base past (.release number) f x v := not_writes (by simp)
      have hkept := contains_of_not_writes ih fun f _ => hnot f
      rw [stack, after, step]
      split
      · rename_i d hd
        have hpos := releases_pos base past d (List.mem_of_getElem? hd)
        rw [length_stack, Environment.frames_cutTo_eq_drop hpos]
        exact List.forall₂_drop _ hkept
      · exact hkept
    | define x v =>
      obtain ⟨f, below, hf, hbelow, hstack⟩ := List.forall₂_cons_right_iff.1 ih
      have hsorted := pairwise_stack base past
      rw [hstack] at hsorted
      rw [stack, hstack]
      refine .cons (hf.set fun y w => ?_) (contains_of_not_writes hbelow fun g hg y w hw => ?_)
      · rw [writes_define_iff hstack]
        simp
      · have hlt := List.rel_of_pairwise_cons hsorted hg
        rw [((writes_define_iff hstack).1 hw).2] at hlt
        exact Nat.lt_irrefl _ hlt
    | assign x v =>
      have hr := reaches_stack base past x
      have hframes := Environment.frames_assign x v (after base past).env
      rw [stack, after, step]
      cases hassign : (after base past).env.assign x v with
      | none =>
        rw [hassign] at hframes
        refine contains_of_not_writes ih fun f _ y w hw => ?_
        -- There is no frame to write to.
        have hnear := (writes_assign_iff.1 hw).2
        obtain ⟨u, hu⟩ := hasBound_iff.1 hnear.2.1
        have hsome := (lookupIn_eq_some_iff ih hr).2 ⟨f, hnear, hu⟩
        rw [Environment.assignIn_eq_none_iff.1 hframes.symm] at hsome
        cases hsome
      | some e =>
        rw [hassign] at hframes
        exact contains_assignIn ih hr hframes.symm

/-! ### What names mean -/

theorem lookup_eq_some_iff {h : List Operation} {x : String} {v : Value} :
    (after base h).env.lookup x = some v ↔ ∃ f, Nearest base h x f ∧ LastWritten base h f x v :=
  lookupIn_eq_some_iff (contents_after base h) (reaches_stack base h x)

theorem isSome_lookup_iff {h : List Operation} {x : String} :
    ((after base h).env.lookup x).isSome ↔ ∃ f, Survives base h f ∧ HasBound base h f x := by
  simp only [Option.isSome_iff_exists, lookup_eq_some_iff]
  constructor
  · rintro ⟨v, f, hf, -⟩
    exact ⟨f, hf.1, hf.2.1⟩
  · rintro ⟨f, hf, hbound⟩
    obtain ⟨g, hg⟩ := (reaches_stack base h x).exists_nearest hf hbound
    obtain ⟨v, hv⟩ := hasBound_iff.1 hg.2.1
    exact ⟨v, g, hg, hv⟩

/-- A release cuts the stack to the depth before its push. -/
theorem after_release {h past : List Operation} (hpush : .push :: past <:+ h) :
    after base (.release (pushes past) :: h) =
      { after base h with env := (after base h).env.cutTo (depthAfter base past) } := by
  rw [after, step, releases_of_push hpush]

theorem depthAfter_release {h past : List Operation} (hpush : .push :: past <:+ h) :
    depthAfter base (.release (pushes past) :: h) =
      min (depthAfter base h) (depthAfter base past) := by
  have hpos : 0 < depthAfter base past := Environment.depth_pos _
  rw [depthAfter, after_release hpush, Environment.depth_cutTo hpos]
  rfl

end

/-- **The last writer.** After any history of pushes, releases, definitions and assignments, the
frame of the start is there, and each frame that survives has what was last written to it. A
release, called whenever and however often, leaves the stack as deep as it is or as it was before
the push, whichever is less, and the frames that are left are as they were. A name has a value if
and only if it was bound in a frame that survives; the value is the one that was last written to it
in the nearest such frame. An assignment fails if and only if the name has no value, and then
changes nothing. -/
theorem lookup_is_last_written (base : Frame) (h : List Operation) :
    (1 ≤ depthAfter base h ∧ (∃ inner, stack base h = inner ++ [0]) ∧
      (stack base h).Pairwise (· > ·) ∧ (∀ f, f ∈ stack base h ↔ Survives base h f) ∧
      List.Forall₂ (fun f frame => ∀ x v, frame.get? x = some v ↔ LastWritten base h f x v)
        (stack base h) (after base h).env.frames) ∧
    (∀ past, .push :: past <:+ h →
      depthAfter base (.release (pushes past) :: h) =
        min (depthAfter base h) (depthAfter base past) ∧
      stack base (.release (pushes past) :: h) =
        (stack base h).drop (depthAfter base h - depthAfter base past) ∧
      (after base (.release (pushes past) :: h)).env.frames =
        (after base h).env.frames.drop (depthAfter base h - depthAfter base past)) ∧
    (∀ x, ((after base h).env.lookup x).isSome ↔ ∃ f, Survives base h f ∧ HasBound base h f x) ∧
    (∀ x v, (after base h).env.lookup x = some v ↔
      ∃ f, Nearest base h x f ∧ LastWritten base h f x v) ∧
    ∀ x v, ((after base h).env.assign x v = none ↔ (after base h).env.lookup x = none) ∧
      ((after base h).env.lookup x = none → after base (.assign x v :: h) = after base h) ∧
      ∀ m : Machine, m.env = (after base h).env →
        Interpreter.assign x v m =
          if (after base h).env.lookup x = none then .done (.error (.undefinedSymbol x)) m
          else .done (.ok ()) { m with env := (after base (.assign x v :: h)).env } := by
  refine ⟨⟨Environment.depth_pos _, exists_stack_eq base h, pairwise_stack base h,
    fun f => mem_stack_iff, contents_after base h⟩, fun past hpush => ?_,
    fun x => isSome_lookup_iff, fun x v => lookup_eq_some_iff, fun x v => ?_⟩
  · have hpos : 0 < depthAfter base past := Environment.depth_pos _
    refine ⟨depthAfter_release hpush, ?_, ?_⟩
    · rw [stack, releases_of_push hpush, length_stack]
    · rw [after_release hpush, Environment.frames_cutTo_eq_drop hpos]
      rfl
  · have hnone : (after base h).env.assign x v = none ↔ _ := Environment.assign_eq_none_iff
    refine ⟨hnone, fun hx => ?_, fun m hm => ?_⟩
    · rw [after, step, hnone.2 hx]
      rfl
    · rw [Interpreter.assign, hm, after, step]
      cases hassign : (after base h).env.assign x v with
      | none => rw [if_pos (hnone.1 hassign)]
      | some e =>
        rw [if_neg (mt hnone.2 (by rw [hassign]; exact Option.some_ne_none e))]
        rfl

/-- Two frames are released through the outer one, and a frame that is pushed then is not taken by
the release of the inner one. -/
theorem lookup_is_last_written_out_of_order :
    let base : Frame := [("x", .bool true)]
    let past : List Operation := [.define "x" .undefined, .push]
    let recent : List Operation :=
      [.define "x" (.string "b"), .release 1, .assign "x" (.string "a"), .push, .release 0]
    let h : List Operation := recent ++ .push :: past
    (.push :: past <:+ h ∧
      depthAfter base (.release 1 :: h) = min (depthAfter base h) (depthAfter base past)) ∧
    (∃ f, Nearest base h "x" f ∧ LastWritten base h f "x" (.string "b")) ∧
    (∃ f, Nearest base (.release 0 :: h) "x" f ∧
      LastWritten base (.release 0 :: h) f "x" (.string "a")) ∧
    ((after base h).env.lookup "y" = none ∧
      after base (.assign "y" .undefined :: h) = after base h ∧
      Interpreter.assign "y" .undefined { env := (after base h).env } =
        .done (.error (.undefinedSymbol "y")) { env := (after base h).env }) := by
  intro base past recent h
  have hpush : .push :: past <:+ h := List.suffix_append recent _
  have hb : (after base h).env.lookup "x" = some (.string "b") := rfl
  have ha : (after base (.release 0 :: h)).env.lookup "x" = some (.string "a") := rfl
  have hnone : (after base h).env.lookup "y" = none := rfl
  obtain ⟨-, hsame, hmachine⟩ := (lookup_is_last_written base h).2.2.2.2 "y" .undefined
  exact ⟨⟨hpush, ((lookup_is_last_written base h).2.1 past hpush).1⟩,
    ((lookup_is_last_written base h).2.2.2.1 "x" _).1 hb,
    ((lookup_is_last_written base (.release 0 :: h)).2.2.2.1 "x" _).1 ha,
    hnone, hsame hnone, (hmachine _ rfl).trans (if_pos hnone)⟩

end Usage

end Lisplet
