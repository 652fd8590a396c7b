import Lisplet.Proofs.LastWriter

/-!
# Calling a release again

A release knows the depth before its push and nothing else: neither whether it was called before
nor which frame it belongs to. Called again it cuts the stack to that depth once more. What it
removes then are frames that have nothing to do with its push: those that were pushed since the
earlier call, onto a stack that was at least as deep. If there is none, then the call changes
nothing, now or later.

* `survives_release_iff`: the frames that a release leaves;
* `pushed_since_of_survives`: a frame above the depth of a release was pushed after its last call;
* `repeated_release_removes`: what a repeated call does;
* `repeated_release_takes_new_frame`: it does not always do nothing.
-/

namespace Lisplet.Usage

variable {base : Frame}

/-- What operations do later depends on nothing but what is there now. -/
theorem after_append_eq {h h' : List Operation} (heq : after base h = after base h')
    (later : List Operation) : after base (later ++ h) = after base (later ++ h') := by
  induction later with
  | nil => exact heq
  | cons op later ih => rw [List.cons_append, List.cons_append, after, after, ih]

/-- A release changes nothing if and only if the stack is no deeper than before its push. -/
theorem after_release_eq_iff {h past : List Operation} (hpush : .push :: past <:+ h) :
    after base (.release (pushes past) :: h) = after base h ↔
      depthAfter base h ≤ depthAfter base past := by
  constructor
  · intro heq
    have hdepth : depthAfter base h = min (depthAfter base h) (depthAfter base past) := by
      rw [← depthAfter_release hpush, depthAfter, depthAfter, heq]
    omega
  · intro hle
    have hsame : (after base h).env.cutTo (depthAfter base past) = (after base h).env := by
      show Environment.drop (depthAfter base h - depthAfter base past) _ = _
      rw [Nat.sub_eq_zero_of_le hle, Environment.drop]
    rw [after_release hpush, hsame]

/-! ### The frames that a release leaves -/

/-- The frame of a push survives as long as the stack is deeper than before the push. -/
theorem survives_push_iff {h now : List Operation} (hnow : .push :: now <:+ h) :
    Survives base h (now.length + 1) ↔
      ∀ m, .push :: now <:+ m → m <:+ h → depthAfter base now < depthAfter base m := by
  constructor
  · rintro (hzero | ⟨past, hpush, hlen, hsince⟩)
    · cases hzero
    · have hlen' : (Operation.push :: now).length = (Operation.push :: past).length := by
        simpa using hlen
      have hsuffix := List.suffix_of_suffix_length_le hnow hpush hlen'.le
      obtain rfl : now = past := (List.cons.inj (hsuffix.eq_of_length hlen')).2
      exact hsince
  · exact fun hsince => .inr ⟨now, hnow, rfl, hsince⟩

/-- A release leaves the frames that were pushed onto a stack less deep than it goes back to. -/
theorem survives_release_iff {h past now : List Operation} (hpush : .push :: past <:+ h)
    (hnow : .push :: now <:+ h) (hf : Survives base h (now.length + 1)) :
    Survives base (.release (pushes past) :: h) (now.length + 1) ↔
      depthAfter base now < depthAfter base past := by
  have hsince := (survives_push_iff hnow).1 hf
  rw [survives_push_iff (hnow.trans (List.suffix_cons _ _))]
  constructor
  · intro hall
    have hlast := hall _ (hnow.trans (List.suffix_cons _ _)) (List.suffix_refl _)
    rw [depthAfter_release hpush] at hlast
    omega
  · intro hlt m hm hle
    rcases List.suffix_cons_iff.1 hle with rfl | hle
    · have hdeep := hsince h hnow (List.suffix_refl _)
      rw [depthAfter_release hpush]
      omega
    · exact hsince m hm hle

/-- A frame that is there above the depth of a release was pushed after the release was called. -/
theorem pushed_since_of_survives {h past earlier now : List Operation}
    (hpush : .push :: past <:+ earlier) (hcall : .release (pushes past) :: earlier <:+ h)
    (hnow : .push :: now <:+ h) (hf : Survives base h (now.length + 1))
    (hdepth : depthAfter base past ≤ depthAfter base now) :
    .release (pushes past) :: earlier <:+ now := by
  rcases Nat.lt_or_ge now.length (Operation.release (pushes past) :: earlier).length with hlt | hge
  · -- The push came before the call, and the call would have removed its frame.
    have hbefore := List.suffix_of_suffix_length_le hnow hcall hlt
    have hdeep := (survives_push_iff hnow).1 hf _ hbefore hcall
    rw [depthAfter_release hpush] at hdeep
    omega
  · exact List.suffix_of_suffix_length_le hcall ((List.suffix_cons _ _).trans hnow) hge

/-- If the stack is deeper than some depth, then there is a frame that was pushed onto a stack of that
depth. -/
theorem exists_survives_of_lt {h : List Operation} {d : Nat} (hpos : 0 < d)
    (hd : d < depthAfter base h) :
    ∃ now, .push :: now <:+ h ∧ depthAfter base now = d ∧ Survives base h (now.length + 1) := by
  rw [← length_stack] at hd
  obtain ⟨f, below, hdrop⟩ := List.exists_cons_of_length_pos
    (l := (stack base h).drop ((stack base h).length - (d + 1))) (by rw [List.length_drop]; omega)
  have hbelow : below.length = d := by
    have hlen := congrArg List.length hdrop
    rw [List.length_drop, List.length_cons] at hlen
    omega
  have hsuffix : f :: below <:+ stack base h := hdrop ▸ List.drop_suffix _ _
  rcases pushed_of_suffix hsuffix with rfl | ⟨now, hnow, rfl, hdepth, -⟩
  · -- Nothing is below the frame of the start.
    have hsorted := (pairwise_stack base h).sublist hsuffix.sublist
    obtain ⟨g, hg⟩ := List.exists_mem_of_length_pos (hbelow ▸ hpos)
    exact absurd (List.rel_of_pairwise_cons hsorted hg) (Nat.not_lt_zero g)
  · exact ⟨now, hnow, hdepth.trans hbelow, mem_stack_iff.1 (hsuffix.subset (List.mem_cons_self ..))⟩

/-! ### Calling it again -/

/-- **Calling a release again.** A release was called, and is called again at whatever moment after
that. The call changes nothing, neither then nor at any later moment, if and only if the stack is no
deeper than before the push, which is to say that no frame is there that was pushed since the
earlier call onto a stack at least that deep. These are exactly the frames that it removes. -/
theorem repeated_release_removes (base : Frame) {past earlier h : List Operation}
    (hpush : .push :: past <:+ earlier) (hcall : .release (pushes past) :: earlier <:+ h) :
    ((∀ later, after base (later ++ .release (pushes past) :: h) = after base (later ++ h)) ↔
      depthAfter base h ≤ depthAfter base past) ∧
    ((∀ later, after base (later ++ .release (pushes past) :: h) = after base (later ++ h)) ↔
      ∀ now, .push :: now <:+ h → .release (pushes past) :: earlier <:+ now →
        depthAfter base past ≤ depthAfter base now → ¬ Survives base h (now.length + 1)) ∧
    ∀ f, Survives base h f → (¬ Survives base (.release (pushes past) :: h) f ↔
      ∃ now, .push :: now <:+ h ∧ .release (pushes past) :: earlier <:+ now ∧
        depthAfter base past ≤ depthAfter base now ∧ f = now.length + 1) := by
  have hpush' : .push :: past <:+ h := hpush.trans ((List.suffix_cons _ _).trans hcall)
  have hpos : 0 < depthAfter base past := Environment.depth_pos _
  have hiff : (∀ later, after base (later ++ .release (pushes past) :: h) =
      after base (later ++ h)) ↔ depthAfter base h ≤ depthAfter base past := by
    rw [← after_release_eq_iff hpush']
    exact ⟨fun hall => hall [], after_append_eq⟩
  refine ⟨hiff, hiff.trans ⟨fun hle now hnow _ hdeep hf => ?_, fun hnone => ?_⟩, fun f hf => ?_⟩
  · have hlt := (survives_push_iff hnow).1 hf h hnow (List.suffix_refl _)
    omega
  · by_contra hlt
    obtain ⟨now, hnow, hdepth, hf⟩ := exists_survives_of_lt hpos (Nat.not_le.1 hlt)
    exact hnone now hnow (pushed_since_of_survives hpush hcall hnow hf hdepth.ge) hdepth.ge hf
  · have hpushed : f = 0 ∨ ∃ now, .push :: now <:+ h ∧ f = now.length + 1 :=
      hf.imp_right fun ⟨now, hnow, hlen, _⟩ => ⟨now, hnow, hlen⟩
    constructor
    · intro hgone
      obtain rfl | ⟨now, hnow, rfl⟩ := hpushed
      · exact absurd (.inl rfl) hgone
      · rw [survives_release_iff hpush' hnow hf, Nat.not_lt] at hgone
        exact ⟨now, hnow, pushed_since_of_survives hpush hcall hnow hf hgone, hgone, rfl⟩
    · rintro ⟨now, hnow, -, hdeep, rfl⟩
      rw [survives_release_iff hpush' hnow hf]
      exact Nat.not_lt.2 hdeep

/-- The release of an inner frame is called a third time when the outer one has been released and
two frames are there again: it removes the inner one of them. -/
theorem repeated_release_removes_one_of_two :
    let base : Frame := [("x", .bool true)]
    let past : List Operation := [.define "x" .undefined, .push]
    let earlier : List Operation := .release 1 :: .push :: past
    let h : List Operation :=
      [.define "x" (.string "b"), .push, .assign "x" (.string "a"), .push, .release 0] ++
        .release 1 :: earlier
    (.push :: past <:+ earlier ∧ .release (pushes past) :: earlier <:+ h) ∧
    Survives base h 9 ∧ ¬ Survives base (.release 1 :: h) 9 ∧
    ¬ ∀ later, after base (later ++ .release 1 :: h) = after base (later ++ h) := by
  intro base past earlier h
  have hpush : .push :: past <:+ earlier := List.suffix_cons _ _
  have hcall : .release (pushes past) :: earlier <:+ h := List.suffix_append _ _
  have hstack : stack base h = [9, 7, 0] := rfl
  have hf : Survives base h 9 := mem_stack_iff.1 (by simp [hstack])
  obtain ⟨hiff, -, hgone⟩ := repeated_release_removes base hpush hcall
  refine ⟨⟨hpush, hcall⟩, hf, (hgone 9 hf).2 ?_, fun hall => absurd (hiff.1 hall) (by decide)⟩
  exact ⟨_, List.suffix_cons _ _, ⟨[.assign "x" (.string "a"), .push, .release 0], rfl⟩,
    by decide, rfl⟩

/-- A frame that was pushed after a release was called is removed when the release is called again:
it is not always safe to call a release more than once. -/
theorem repeated_release_takes_new_frame :
    ¬ ∀ (base : Frame) (past earlier h : List Operation), .push :: past <:+ earlier →
      .release (pushes past) :: earlier <:+ h →
      ∀ later, after base (later ++ .release (pushes past) :: h) = after base (later ++ h) := by
  intro hsafe
  have hsame := hsafe [] [] [.push] [.push, .release 0, .push] (List.suffix_refl _)
    (List.suffix_cons _ _) []
  have hdepth : (2 : Nat) = 1 := congrArg (fun u => u.env.depth) hsame.symm
  cases hdepth

end Lisplet.Usage
