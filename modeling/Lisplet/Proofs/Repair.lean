import Lisplet.Proofs.Render

/-!
# Stray and missing parentheses

Every list of tokens can be read. What is read are the tokens of the list with its parentheses
repaired: a closing one that closes nothing is dropped, and what is open at the end is closed
there. So the tree has all the other tokens, each of them once and in the order of the list.

* `Token.kept`, `Token.pending`, `Token.repair`: the repair of a list of tokens;
* `Reading.written`: the tokens of the branches that are open while a program is read;
* `Reading.written_step`, `Reading.written_run`: what one token and what a list of tokens adds;
* `Node.flattenAll_forestOf`: the tokens of what is read;
* `Node.read_as_repaired`: reading, flattening and repair.
-/

namespace Lisplet

namespace Token

/-! ### Repair

The height is the number of lists that are open before a token. -/

/-- Whether a token closes a list although none is open. -/
def isStray (height : Nat) (t : Token) : Bool := t.kind = .closeParen && height = 0

/-- The height after a token. -/
def heightAfter (height : Nat) (t : Token) : Nat :=
  match t.kind with
  | .openParen => height + 1
  | .closeParen => height - 1
  | _ => height

/-- The tokens without the closing ones that are met when no list is open. -/
def kept : Nat → List Token → List Token
  | _, [] => []
  | height, t :: ts =>
    if t.isStray height then kept height ts else t :: kept (t.heightAfter height) ts

/-- The number of lists that a list of tokens leaves open. -/
def pending (height : Nat) (ts : List Token) : Nat := ts.foldl heightAfter height

/-- Drop each closing token that closes nothing, and close at the end what is left open. -/
def repair (ts : List Token) : List Token :=
  kept 0 ts ++ List.replicate (pending 0 ts) closing

/-- A parenthesis with its usual text, and any other token as it is. -/
def usual (t : Token) : Token :=
  match t.kind with
  | .openParen => opening
  | .closeParen => closing
  | _ => t

theorem isPlain_of_isStray {height : Nat} {t : Token} (h : t.isStray height = true) :
    t.isPlain = false := by
  have hk : t.kind = .closeParen := of_decide_eq_true (Bool.and_eq_true_iff.1 h).1
  simp [isPlain, hk]

/-- A token that is no stray one changes the height as it changes the balance. -/
theorem heightAfter_of_not_isStray {height : Nat} {t : Token} (h : t.isStray height = false) :
    (t.heightAfter height : Int) = height + t.nesting := by
  obtain ⟨kind, text⟩ := t
  cases kind with
  | closeParen =>
    have hpos : height ≠ 0 := by simpa [isStray] using h
    simp only [heightAfter, nesting]
    omega
  | openParen => simp [heightAfter, nesting]
  | _ => simp [heightAfter, nesting]

theorem kept_sublist (height : Nat) (ts : List Token) : (kept height ts).Sublist ts := by
  induction ts generalizing height with
  | nil => exact List.Sublist.refl _
  | cons t ts ih =>
    rw [kept]
    split
    · exact (ih height).cons t
    · exact (ih (t.heightAfter height)).cons_cons t

theorem filter_kept (height : Nat) (ts : List Token) :
    (kept height ts).filter isPlain = ts.filter isPlain := by
  induction ts generalizing height with
  | nil => rfl
  | cons t ts ih =>
    rw [kept]
    split
    · rename_i hs
      rw [ih, List.filter_cons_of_neg (by simp [isPlain_of_isStray hs])]
    · rw [List.filter_cons, List.filter_cons, ih]

/-- Repair keeps every token that is no parenthesis, once and in its place. -/
theorem filter_repair (ts : List Token) : (repair ts).filter isPlain = ts.filter isPlain := by
  have hclosing : closing.isPlain = false := rfl
  simp [repair, filter_kept, hclosing]

theorem map_usual_repair {ts : List Token} (h : ∀ t ∈ ts, t.usual = t) :
    (repair ts).map usual = repair ts := by
  have hrepair : ∀ t ∈ repair ts, t.usual = t := by
    intro t ht
    rcases List.mem_append.1 ht with ht | ht
    · exact h t ((kept_sublist 0 ts).subset ht)
    · rw [List.eq_of_mem_replicate ht]
      rfl
  rw [List.map_congr_left hrepair, List.map_id']

/-- Where no first part of a list closes more than it opens, nothing is dropped, and what is left
open is the balance. -/
theorem kept_eq_self {height : Nat} {ts : List Token}
    (h : ∀ us, us <+: ts → 0 ≤ height + balance us) :
    kept height ts = ts ∧ (pending height ts : Int) = height + balance ts := by
  induction ts generalizing height with
  | nil => simp [kept, pending]
  | cons t ts ih =>
    have hs : t.isStray height = false := by
      have ht := h [t] (List.prefix_append [t] ts)
      rw [Bool.eq_false_iff]
      intro hs
      simp only [isStray, Bool.and_eq_true, decide_eq_true_eq] at hs
      simp [nesting, hs.1, hs.2] at ht
    have hafter := heightAfter_of_not_isStray hs
    have hrest : ∀ us, us <+: ts → 0 ≤ (t.heightAfter height : Int) + balance us := by
      intro us hus
      have hcons := h (t :: us) ((List.prefix_cons_inj t).2 hus)
      rw [balance_cons] at hcons
      omega
    obtain ⟨hkept, hpending⟩ := ih hrest
    refine ⟨by simp [kept, hs, hkept], ?_⟩
    rw [balance_cons, ← Int.add_assoc, ← hafter, ← hpending]
    rfl

theorem repair_eq_self {ts : List Token} (h : ∀ us, us <+: ts → 0 ≤ balance us)
    (hts : balance ts = 0) : repair ts = ts := by
  have hzero : ∀ us, us <+: ts → 0 ≤ ((0 : Nat) : Int) + balance us := by simpa using h
  obtain ⟨hkept, hpending⟩ := kept_eq_self hzero
  have hclosed : pending 0 ts = 0 := by omega
  simp [repair, hkept, hclosed]

end Token

/-! ### The tokens of open branches -/

theorem Node.flattenAll_append (ns ks : List Node) :
    flattenAll (ns ++ ks) = flattenAll ns ++ flattenAll ks := by
  induction ns with
  | nil => rfl
  | cons n ns ih => simp [flattenAll, ih]

namespace Reading

/-- The tokens of the branches around the innermost open one, each of them not yet closed. -/
def writtenAround : List (List Node) → List Token
  | [] => []
  | parent :: outer => writtenAround outer ++ (Node.flattenAll parent.reverse ++ [Token.opening])

/-- The tokens of all open branches, none of them closed yet. -/
def written (r : Reading) : List Token :=
  writtenAround r.outer ++ Node.flattenAll r.inner.reverse

/-- The tokens of a forest are those of its open branches, each of which is closed at the end. -/
theorem flattenAll_forest (r : Reading) :
    Node.flattenAll r.forest = r.written ++ List.replicate r.height Token.closing := by
  obtain ⟨inner, outer⟩ := r
  induction outer generalizing inner with
  | nil => simp [forest, close, written, writtenAround, height]
  | cons parent outer ih =>
    have h : Node.flattenAll (close (.branch inner.reverse :: parent) outer) = _ :=
      ih (.branch inner.reverse :: parent)
    simp only [forest, close, h]
    simp [written, writtenAround, height, Node.flattenAll_append, Node.flattenAll, Node.flatten,
      List.replicate_succ]

/-! ### What a token adds -/

theorem step_of_isStray {r : Reading} {t : Token} (h : t.isStray r.height = true) :
    r.step t = r := by
  obtain ⟨inner, outer⟩ := r
  simp only [Token.isStray, height, Bool.and_eq_true, decide_eq_true_eq,
    List.length_eq_zero_iff] at h
  obtain ⟨hk, rfl⟩ := h
  simp [step, hk]

theorem height_step (r : Reading) (t : Token) : (r.step t).height = t.heightAfter r.height := by
  obtain ⟨inner, outer⟩ := r
  obtain ⟨kind, text⟩ := t
  cases kind with
  | closeParen => cases outer <;> rfl
  | _ => rfl

/-- A token that is no stray one is written after the others. -/
theorem written_step {r : Reading} {t : Token} (h : t.isStray r.height = false) :
    (r.step t).written = r.written ++ [t.usual] := by
  obtain ⟨inner, outer⟩ := r
  obtain ⟨kind, text⟩ := t
  cases kind with
  | openParen => simp [step, written, writtenAround, Node.flattenAll, Token.usual]
  | closeParen =>
    cases outer with
    | nil => cases h
    | cons parent outer =>
      simp [step, written, writtenAround, Node.flattenAll_append, Node.flattenAll, Node.flatten,
        Token.usual]
  | _ =>
    simp [step, add, written, Node.flattenAll_append, Node.flattenAll, Node.flatten, Token.usual]

/-! ### What a list of tokens adds -/

theorem height_run (r : Reading) (ts : List Token) :
    (r.run ts).height = Token.pending r.height ts := by
  induction ts generalizing r with
  | nil => rfl
  | cons t ts ih =>
    have hrun := ih (r.step t)
    rwa [height_step] at hrun

/-- Stray tokens make no difference. -/
theorem run_kept (r : Reading) (ts : List Token) : r.run (Token.kept r.height ts) = r.run ts := by
  induction ts generalizing r with
  | nil => rfl
  | cons t ts ih =>
    rw [Token.kept]
    split
    · rename_i hs
      rw [ih]
      show r.run ts = (r.step t).run ts
      rw [step_of_isStray hs]
    · rw [← height_step]
      exact ih (r.step t)

theorem written_run (r : Reading) (ts : List Token) :
    (r.run ts).written = r.written ++ (Token.kept r.height ts).map Token.usual := by
  induction ts generalizing r with
  | nil => simp [run, Token.kept]
  | cons t ts ih =>
    show ((r.step t).run ts).written = _
    rw [Token.kept, ih]
    split
    · rename_i hs
      rw [step_of_isStray hs]
    · rename_i hs
      rw [written_step (Bool.eq_false_iff.2 hs), height_step]
      simp

/-- To close a branch explicitly is to have it closed at the end. -/
theorem forest_run_closing (r : Reading) (k : Nat) :
    (r.run (List.replicate k Token.closing)).forest = r.forest := by
  induction k generalizing r with
  | zero => rfl
  | succ k ih =>
    refine (ih (r.step Token.closing)).trans ?_
    obtain ⟨inner, outer⟩ := r
    cases outer <;> rfl

end Reading

namespace Node

/-- The tokens of what is read are the tokens that were repaired. -/
theorem flattenAll_forestOf (ts : List Token) :
    flattenAll (forestOf ts) = (Token.repair ts).map Token.usual := by
  have hclosing : Token.closing.usual = Token.closing := rfl
  rw [forestOf, Reading.flattenAll_forest, Reading.written_run, Reading.height_run]
  simp [Token.repair, Reading.written, Reading.writtenAround, Reading.height, flattenAll, hclosing]

/-- The atoms of what is read are the tokens but for parentheses, each of them once and in order. -/
theorem filter_flattenAll_forestOf (ts : List Token) :
    (flattenAll (forestOf ts)).filter Token.isPlain = ts.filter Token.isPlain := by
  have hplain : Token.isPlain ∘ Token.usual = Token.isPlain := by
    funext ⟨kind, text⟩
    cases kind <;> rfl
  have husual : ∀ t ∈ ts.filter Token.isPlain, t.usual = t := by
    rintro ⟨kind, text⟩ ht
    have hp := (List.mem_filter.1 ht).2
    cases kind with
    | openParen => cases hp
    | closeParen => cases hp
    | _ => rfl
  rw [flattenAll_forestOf, List.filter_map, hplain, Token.filter_repair,
    List.map_congr_left husual, List.map_id']

/-- Closing tokens at the end make no difference, nor do stray ones before. -/
theorem forestOf_kept (ts : List Token) (k : Nat) :
    forestOf (Token.kept 0 ts ++ List.replicate k Token.closing) = forestOf ts := by
  have hkept : Reading.run {} (Token.kept 0 ts) = Reading.run {} ts := Reading.run_kept {} ts
  rw [forestOf, Reading.run_append, hkept, Reading.forest_run_closing, forestOf]

theorem ofTokens_repair {cap : Nat} {ts : List Token} (h : ts.length ≤ cap) :
    ofTokens cap (Token.repair ts) = ofTokens cap ts := by
  -- Only closing tokens of the repair can be beyond the cap.
  have hlen : (Token.kept 0 ts).length ≤ cap := Nat.le_trans (Token.kept_sublist 0 ts).length_le h
  rw [ofTokens, ofTokens, List.take_of_length_le h, Token.repair, List.take_append,
    List.take_of_length_le hlen, List.take_replicate, forestOf_kept]

/-- **A list of tokens is read as what its repair is.** The tokens of the tree are those of the
repaired list, a branch having parentheses of the usual texts; to read the repaired list gives the
same tree; no token but a parenthesis is lost, moved or doubled by a repair, and none at all if
the list was balanced. Reading the tokens of a forest without parentheses as atoms gives the
forest. -/
theorem read_as_repaired (cap : Nat) :
    (∀ ts : List Token, ts.length ≤ cap →
      flattenAll ((ofTokens cap ts).children.drop 1) = (Token.repair ts).map Token.usual ∧
      ((∀ t ∈ ts, t.usual = t) →
        flattenAll ((ofTokens cap ts).children.drop 1) = Token.repair ts) ∧
      ofTokens cap (Token.repair ts) = ofTokens cap ts ∧
      (Token.repair ts).filter Token.isPlain = ts.filter Token.isPlain ∧
      ((∀ us, us <+: ts → 0 ≤ Token.balance us) → Token.balance ts = 0 →
        Token.repair ts = ts)) ∧
    ∀ forest : List Node, allTokensOf Token.isPlain forest = true →
      (flattenAll forest).length ≤ cap → ofTokens cap (flattenAll forest) = program forest := by
  refine ⟨fun ts h => ?_, fun forest hplain h => ?_⟩
  · have hflat : flattenAll ((ofTokens cap ts).children.drop 1) =
        (Token.repair ts).map Token.usual := by
      rw [ofTokens, List.take_of_length_le h]
      exact flattenAll_forestOf ts
    refine ⟨hflat, fun husual => ?_, ofTokens_repair h, Token.filter_repair ts,
      Token.repair_eq_self⟩
    rw [hflat, Token.map_usual_repair husual]
  · rw [ofTokens, List.take_of_length_le h, forestOf_flattenAll hplain]

/-- A stray closing parenthesis, a token of a kind of its own, and two lists that are not closed,
with a cap that leaves no room for the parentheses that are missing; and a forest of lists. -/
theorem read_as_repaired_stray :
    flattenAll ((ofTokens 6 [.closing, ⟨.other 9, "?"⟩, .opening, .sym "a", .opening,
        .sym "b"]).children.drop 1) =
      [⟨.other 9, "?"⟩, .opening, .sym "a", .opening, .sym "b", .closing, .closing] ∧
    ofTokens 6 [⟨.other 9, "?"⟩, .opening, .sym "a", .opening, .sym "b", .closing, .closing] =
      ofTokens 6 [.closing, ⟨.other 9, "?"⟩, .opening, .sym "a", .opening, .sym "b"] ∧
    ofTokens 6 [.opening, .sym "a", .closing, .opening, .closing] =
      program [.branch [sym "a"], .branch []] := by
  obtain ⟨hlist, hforest⟩ := read_as_repaired 6
  obtain ⟨-, hflat, hrepair, -⟩ := hlist
    [.closing, ⟨.other 9, "?"⟩, .opening, .sym "a", .opening, .sym "b"] (by decide)
  exact ⟨hflat (by decide), hrepair, hforest [.branch [sym "a"], .branch []] rfl (by decide)⟩

end Node

end Lisplet
