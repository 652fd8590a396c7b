import Lisplet.Value

/-!
# Environments

An environment is a stack of frames that is never empty; a frame binds names to values. A name
means what the innermost frame that binds it says. `define` writes to the innermost frame, and
`assign` to the innermost frame that binds the name already. A frame that was pushed is released
by cutting the stack to the depth it had before.
-/

namespace Lisplet

/-- Names and their values, in the order in which the names were first bound. -/
abbrev Frame : Type := List (String × Value)

namespace Frame

/-- The value of a name in a frame. -/
def get? (name : String) : Frame → Option Value
  | [] => none
  | (key, v) :: rest => if key = name then some v else get? name rest

/-- Bind a name, in place if the frame binds it already. -/
def set (name : String) (value : Value) : Frame → Frame
  | [] => [(name, value)]
  | (key, v) :: rest =>
    if key = name then (key, value) :: rest else (key, v) :: set name value rest

/-- The names of a frame. -/
def keys (f : Frame) : List String := f.map Prod.fst

@[simp] theorem get?_nil (name : String) : get? name [] = none := rfl

theorem get?_set_self (name : String) (value : Value) (f : Frame) :
    get? name (set name value f) = some value := by
  induction f with
  | nil => simp [set, get?]
  | cons b rest ih =>
    obtain ⟨key, v⟩ := b
    by_cases h : key = name <;> simp [set, get?, h, ih]

theorem get?_set_of_ne {name other : String} (h : other ≠ name) (value : Value) (f : Frame) :
    get? other (set name value f) = get? other f := by
  induction f with
  | nil => simp [set, get?, h.symm]
  | cons b rest ih =>
    obtain ⟨key, v⟩ := b
    by_cases hk : key = name
    · subst hk
      simp [set, get?, h.symm]
    · simp [set, get?, hk, ih]

end Frame

/-- A stack of frames with at least one frame. -/
structure Environment where
  /-- The frame that names are defined in. -/
  inner : Frame
  /-- The frames around it, nearest first. -/
  outer : List Frame := []
  deriving Repr, Inhabited

namespace Environment

/-- The number of frames. -/
def depth (e : Environment) : Nat := e.outer.length + 1

/-- Every frame, innermost first. -/
def frames (e : Environment) : List Frame := e.inner :: e.outer

/-- Add an empty frame. -/
def push (e : Environment) : Environment := ⟨[], e.frames⟩

/-- Remove frames, but never the last one. -/
def drop : Nat → Environment → Environment
  | 0, e => e
  | _ + 1, ⟨inner, []⟩ => ⟨inner, []⟩
  | n + 1, ⟨_, f :: outer⟩ => drop n ⟨f, outer⟩

/-- Cut the stack to a depth; a stack that is not deeper stays as it is. -/
def cutTo (depth : Nat) (e : Environment) : Environment := e.drop (e.depth - depth)

/-- Bind a name in the innermost frame. -/
def define (name : String) (value : Value) (e : Environment) : Environment :=
  { e with inner := e.inner.set name value }

/-- The value of a name in a stack of frames. -/
def lookupIn (name : String) : List Frame → Option Value
  | [] => none
  | f :: fs =>
    match f.get? name with
    | some v => some v
    | none => lookupIn name fs

/-- The value of a name. -/
def lookup (name : String) (e : Environment) : Option Value := lookupIn name e.frames

/-- Change a name in the nearest frame of a stack that binds it. -/
def assignIn (name : String) (value : Value) : List Frame → Option (List Frame)
  | [] => none
  | f :: fs =>
    match f.get? name with
    | some _ => some (f.set name value :: fs)
    | none => (assignIn name value fs).map (f :: ·)

/-- Change a name in the nearest frame that binds it; none if no frame does. -/
def assign (name : String) (value : Value) (e : Environment) : Option Environment :=
  match e.inner.get? name with
  | some _ => some { e with inner := e.inner.set name value }
  | none => (assignIn name value e.outer).map fun outer => { e with outer }

/-- The environment with the builtins only. -/
def standard : Environment := ⟨Builtin.all.map fun b => (b.name, .builtin b), []⟩

/-- The environment that binds nothing. -/
def bare : Environment := ⟨[], []⟩

@[simp] theorem depth_push (e : Environment) : e.push.depth = e.depth + 1 := rfl

@[simp] theorem depth_define (name : String) (value : Value) (e : Environment) :
    (e.define name value).depth = e.depth := rfl

theorem depth_pos (e : Environment) : 0 < e.depth := Nat.succ_pos _

theorem depth_drop (n : Nat) (e : Environment) : (e.drop n).depth = max 1 (e.depth - n) := by
  induction n generalizing e with
  | zero =>
    have := e.depth_pos
    simp only [drop]
    omega
  | succ n ih =>
    obtain ⟨inner, outer⟩ := e
    cases outer with
    | nil =>
      simp only [drop, depth, List.length_nil]
      omega
    | cons f fs =>
      rw [drop, ih]
      simp only [depth, List.length_cons]
      omega

@[simp] theorem cutTo_push (e : Environment) : e.push.cutTo e.depth = e := by
  simp [cutTo, push, drop, depth, frames]

end Environment

end Lisplet
