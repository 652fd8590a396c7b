import Lisplet.Proofs.Repair

/-!
# Measures of trees, told from the tokens

How deep a program is nested, how many nodes it has and how it is outlined can be told from its
tokens in one pass, without the tree: what matters of a token is its height, the number of lists
that are open before it. While a program is read, the measures of what would be read if the tokens
ended there are known from the branches that are open, and each token adds to them by itself.

* `Token.heights`, `Token.outline`: the heights of tokens, and the lines they are shown on;
* `Reading.countAll_forest`, `Reading.depthBelow_forest`, `Reading.linesAll_forest`: the measures
  of a program some branches of which are open;
* `Reading.countAll_step`, `Reading.depthBelow_step`, `Reading.linesAll_step`: what a token adds;
* `Node.measures_of_tokens`: the measures of a program from its tokens.
-/

namespace Lisplet

namespace Token

/-! ### Heights -/

/-- The heights before the tokens of a list, each in its turn, and the height after the last one. -/
def heights (height : Nat) (ts : List Token) : List Nat := ts.scanl heightAfter height

/-- A token on a line of its own, indented by two spaces for each list that is open. -/
def line (height : Nat) (t : Token) : String :=
  String.ofList (List.replicate (2 * height) ' ') ++ t.text

/-- A line for each token that is no parenthesis. -/
def outline (height : Nat) (ts : List Token) : List String :=
  ((ts.zip (heights height ts)).filter (·.1.isPlain)).map fun p => p.1.line p.2

@[simp] theorem heights_nil (height : Nat) : heights height [] = [height] := by
  simp [heights]

@[simp] theorem heights_cons (height : Nat) (t : Token) (ts : List Token) :
    heights height (t :: ts) = height :: heights (t.heightAfter height) ts := by
  simp [heights]

@[simp] theorem outline_nil (height : Nat) : outline height [] = [] := rfl

theorem outline_cons (height : Nat) (t : Token) (ts : List Token) :
    outline height (t :: ts) =
      (if t.isPlain then [t.line height] else []) ++ outline (t.heightAfter height) ts := by
  unfold outline
  by_cases ht : t.isPlain <;> simp [ht]

theorem exists_heights (height : Nat) (ts : List Token) :
    ∃ rest, heights height ts = height :: rest := by
  cases ts <;> simp

/-- The height before a token is what the tokens before it leave open. -/
theorem getElem?_heights (height : Nat) {ts : List Token} {k : Nat} (hk : k ≤ ts.length) :
    (heights height ts)[k]? = some (pending height (ts.take k)) := by
  induction ts generalizing height k with
  | nil =>
    obtain rfl : k = 0 := Nat.le_zero.1 hk
    simp [pending]
  | cons t ts ih =>
    cases k with
    | zero => simp [pending]
    | succ k =>
      rw [heights_cons, List.getElem?_cons_succ, ih _ (Nat.le_of_succ_le_succ hk)]
      rfl

end Token

/-! ### The measures of lists of nodes -/

namespace Node

theorem countAll_append (ns ks : List Node) :
    countAll (ns ++ ks) = countAll ns + countAll ks := by
  induction ns with
  | nil => simp [countAll]
  | cons n ns ih => simp [countAll, ih, Nat.add_assoc]

theorem countAll_reverse (ns : List Node) : countAll ns.reverse = countAll ns := by
  induction ns with
  | nil => rfl
  | cons n ns ih => simp [countAll_append, countAll, ih, Nat.add_comm]

theorem depthBelow_append (ns ks : List Node) :
    depthBelow (ns ++ ks) = max (depthBelow ns) (depthBelow ks) := by
  induction ns with
  | nil => simp [depthBelow]
  | cons n ns ih => cases n <;> simp [depthBelow, ih, Nat.max_assoc]

theorem depthBelow_reverse (ns : List Node) : depthBelow ns.reverse = depthBelow ns := by
  induction ns with
  | nil => rfl
  | cons n ns ih => cases n <;> simp [depthBelow_append, depthBelow, ih, Nat.max_comm]

theorem linesAll_append (depth : Nat) (ns ks : List Node) :
    linesAll depth (ns ++ ks) = linesAll depth ns ++ linesAll depth ks := by
  induction ns with
  | nil => rfl
  | cons n ns ih => simp [linesAll, ih]

end Node

namespace Reading

/-! ### The measures of open branches -/

/-- The number of nodes around the innermost open branch, which is counted as one of them. -/
def countAround : List (List Node) → Nat
  | [] => 0
  | parent :: outer => Node.countAll parent + 1 + countAround outer

/-- How deep branches are nested beside the innermost open one. -/
def depthAround : List (List Node) → Nat
  | [] => 0
  | parent :: outer => max (Node.depthBelow parent + outer.length) (depthAround outer)

/-- The lines of the nodes around the innermost open branch. -/
def linesAround : List (List Node) → List String
  | [] => []
  | parent :: outer => linesAround outer ++ Node.linesAll outer.length parent.reverse

theorem countAll_forest (r : Reading) :
    Node.countAll r.forest = Node.countAll r.inner + countAround r.outer := by
  obtain ⟨inner, outer⟩ := r
  induction outer generalizing inner with
  | nil => simp [forest, close, countAround, Node.countAll_reverse]
  | cons parent outer ih =>
    have h : Node.countAll (close (.branch inner.reverse :: parent) outer) = _ :=
      ih (.branch inner.reverse :: parent)
    simp only [forest, close, h, Node.countAll, Node.count, Node.countAll_reverse, countAround]
    omega

theorem depthBelow_forest (r : Reading) :
    Node.depthBelow r.forest = max (Node.depthBelow r.inner + r.height) (depthAround r.outer) := by
  obtain ⟨inner, outer⟩ := r
  induction outer generalizing inner with
  | nil => simp [forest, close, height, depthAround, Node.depthBelow_reverse]
  | cons parent outer ih =>
    have h : Node.depthBelow (close (.branch inner.reverse :: parent) outer) = _ :=
      ih (.branch inner.reverse :: parent)
    simp only [forest, close, h, Node.depthBelow, Node.depth, Node.depthBelow_reverse, depthAround,
      height, List.length_cons]
    omega

theorem linesAll_forest (r : Reading) :
    Node.linesAll 0 r.forest = linesAround r.outer ++ Node.linesAll r.height r.inner.reverse := by
  obtain ⟨inner, outer⟩ := r
  induction outer generalizing inner with
  | nil => simp [forest, close, height, linesAround]
  | cons parent outer ih =>
    have h : Node.linesAll 0 (close (.branch inner.reverse :: parent) outer) = _ :=
      ih (.branch inner.reverse :: parent)
    simp [forest, close, h, Node.linesAll_append, Node.linesAll, Node.lines, linesAround, height]

theorem height_le_depthBelow (r : Reading) : r.height ≤ Node.depthBelow r.forest := by
  rw [depthBelow_forest]
  omega

/-! ### What a token adds -/

/-- A closing token changes nothing that is read: it only ends a branch, or is ignored. -/
theorem forest_step_of_closing {r : Reading} {t : Token} (h : t.kind = .closeParen) :
    (r.step t).forest = r.forest := by
  obtain ⟨inner, outer⟩ := r
  cases outer <;> simp [step, h, forest, close]

/-- Every token but a closing one becomes a node. -/
theorem countAll_step (r : Reading) (t : Token) :
    Node.countAll (r.step t).forest =
      Node.countAll r.forest + if t.kind = .closeParen then 0 else 1 := by
  obtain ⟨kind, text⟩ := t
  cases kind with
  | closeParen => simp [forest_step_of_closing]
  | openParen =>
    simp only [countAll_forest, step, countAround, Node.countAll, reduceCtorEq, if_false]
    omega
  | _ =>
    simp only [countAll_forest, step, add, Node.countAll, Node.count, reduceCtorEq, if_false]
    omega

/-- A token makes the program as deep as it is high. -/
theorem depthBelow_step (r : Reading) (t : Token) :
    Node.depthBelow (r.step t).forest =
      max (Node.depthBelow r.forest) (t.heightAfter r.height) := by
  have hheight := height_le_depthBelow r
  obtain ⟨kind, text⟩ := t
  cases kind with
  | closeParen =>
    rw [forest_step_of_closing rfl]
    show _ = max _ (r.height - 1)
    omega
  | openParen =>
    simp only [depthBelow_forest, step, Token.heightAfter, depthAround, Node.depthBelow, height,
      List.length_cons]
    omega
  | _ =>
    show Node.depthBelow (r.add _).forest = max _ r.height
    rw [Nat.max_eq_left hheight]
    simp [depthBelow_forest, add, Node.depthBelow, height]

/-- A token that is no parenthesis is shown on a line of its own. -/
theorem linesAll_step (r : Reading) (t : Token) :
    Node.linesAll 0 (r.step t).forest =
      Node.linesAll 0 r.forest ++ if t.isPlain then [t.line r.height] else [] := by
  obtain ⟨kind, text⟩ := t
  cases kind with
  | closeParen => simp [forest_step_of_closing, Token.isPlain]
  | openParen => simp [linesAll_forest, step, linesAround, Node.linesAll, height, Token.isPlain]
  | _ =>
    simp [linesAll_forest, step, add, Node.linesAll_append, Node.linesAll, Node.lines, height,
      Token.isPlain, Token.line]

/-! ### What a list of tokens adds -/

theorem countAll_run (r : Reading) (ts : List Token) :
    Node.countAll (r.run ts).forest =
      Node.countAll r.forest + ts.countP (·.kind ≠ .closeParen) := by
  induction ts generalizing r with
  | nil => rfl
  | cons t ts ih =>
    show Node.countAll ((r.step t).run ts).forest = _
    rw [ih, countAll_step, List.countP_cons]
    by_cases ht : t.kind = .closeParen
    · simp [ht]
    · simp [ht]
      omega

/-- The program is as deep as it was, or as the tokens are high. -/
theorem depthBelow_run (r : Reading) (ts : List Token) :
    Node.depthBelow (r.run ts).forest =
      (Token.heights r.height ts).foldl max (Node.depthBelow r.forest) := by
  induction ts generalizing r with
  | nil => simp [run, height_le_depthBelow r]
  | cons t ts ih =>
    -- The height after the token is the first of the heights to come, so it is not counted anew.
    obtain ⟨rest, hrest⟩ := Token.exists_heights (t.heightAfter r.height) ts
    show Node.depthBelow ((r.step t).run ts).forest = _
    rw [ih, depthBelow_step, height_step, Token.heights_cons, hrest]
    simp [height_le_depthBelow r]

theorem linesAll_run (r : Reading) (ts : List Token) :
    Node.linesAll 0 (r.run ts).forest =
      Node.linesAll 0 r.forest ++ Token.outline r.height ts := by
  induction ts generalizing r with
  | nil => simp [run]
  | cons t ts ih =>
    show Node.linesAll 0 ((r.step t).run ts).forest = _
    rw [ih, linesAll_step, height_step, Token.outline_cons, List.append_assoc]

end Reading

namespace Node

/-- **The measures of a program from its tokens.** The height at a token is the number of lists that
the tokens before it leave open, closing tokens that close nothing left aside. A program has a node
for each token that is no closing one, besides the root and its head; it is as deep as the greatest
height before or after a token; and its outline has a line for each token that is no parenthesis,
indented by its height. -/
theorem measures_of_tokens {cap : Nat} {ts : List Token} (h : ts.length ≤ cap) :
    (∀ k ≤ ts.length, (Token.heights 0 ts)[k]? = some (Token.pending 0 (ts.take k))) ∧
    (ofTokens cap ts).count = 2 + ts.countP (·.kind ≠ .closeParen) ∧
    (Token.heights 0 ts).max? = some (ofTokens cap ts).depth ∧
    linesAll 0 (ofTokens cap ts).children = "progn" :: Token.outline 0 ts ∧
    (ofTokens cap ts).outline = "\n".intercalate ("progn" :: Token.outline 0 ts) := by
  have hcount := Reading.countAll_run {} ts
  have hdepth := Reading.depthBelow_run {} ts
  have hlines := Reading.linesAll_run {} ts
  have htree : ofTokens cap ts = program (Reading.run {} ts).forest := by
    rw [ofTokens, List.take_of_length_le h, forestOf]
  have hshown : linesAll 0 (ofTokens cap ts).children = "progn" :: Token.outline 0 ts := by
    rw [htree]
    show linesAll 0 (sym prognName :: (Reading.run {} ts).forest) = _
    rw [linesAll, hlines]
    rfl
  refine ⟨fun k hk => Token.getElem?_heights 0 hk, ?_, ?_, hshown, ?_⟩
  · rw [htree]
    show countAll (sym prognName :: (Reading.run {} ts).forest) + 1 = _
    rw [countAll, hcount]
    show 1 + (0 + _) + 1 = _
    omega
  · obtain ⟨rest, hrest⟩ := Token.exists_heights 0 ts
    rw [htree]
    show _ = some (depthBelow (Reading.run {} ts).forest)
    rw [hdepth]
    show _ = some ((Token.heights 0 ts).foldl max 0)
    rw [hrest, List.max?_cons']
    rfl
  · rw [outline, hshown]

/-- A closing parenthesis that closes nothing, and three lists one of which is closed. -/
theorem measures_of_tokens_unclosed :
    let ts : List Token := [.closing, .sym "a", .opening, .sym "b", .opening, .opening, .sym "c",
      .closing, ⟨.other 9, "?"⟩]
    ts.length ≤ 9 ∧ Token.heights 0 ts = [0, 0, 0, 1, 1, 2, 3, 3, 2, 2] ∧
    (ofTokens 9 ts).count = 9 ∧ (ofTokens 9 ts).depth = 3 ∧
    (ofTokens 9 ts).outline = "progn\na\n  b\n      c\n    ?" := by
  intro ts
  have hlength : ts.length ≤ 9 := by decide
  have hheights : Token.heights 0 ts = [0, 0, 0, 1, 1, 2, 3, 3, 2, 2] := by decide
  obtain ⟨-, hcount, hdepth, -, houtline⟩ := measures_of_tokens hlength
  rw [hheights] at hdepth
  exact ⟨hlength, hheights, hcount, (Option.some.inj hdepth).symm, houtline⟩

end Node

end Lisplet
