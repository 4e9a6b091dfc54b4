import RichDoc.Proofs.Export.Nesting
import RichDoc.Proofs.Export.Steady
import RichDoc.Proofs.Range.Indexed

/-!
# Containers on a stack

A `Nest` keeps what is complete apart from the containers that are open,
so there is no bottom that it could run out of. On a stack that takes all
inlines, the bottom is a root that is no container, and a container is
known by the index of its mark, of which the registry has the entry. Here
the moves of the assembly are spelled out for such a stack, with nothing
where the root is not at the bottom or a mark is not registered.

A stack that stands for a nest (`Stands`) has its root and entries, so
every move has a result, which stands for what the nest becomes.
-/

namespace RichDoc

open Pandoc (Inline)

/-- What the stack holds: the root, or a container by the index of its mark. The content is kept
with the last inline first. -/
inductive StackFrame where
  | root (content : List Inline)
  | container (mark stop noteNumber : Nat) (content : List Inline)

namespace StackFrame

def isRoot : StackFrame → Bool
  | root _ => true
  | container .. => false

def put (inline : Inline) : StackFrame → StackFrame
  | root content => root (inline :: content)
  | container mark stop noteNumber content => container mark stop noteNumber (inline :: content)

/-- The root is at the bottom. -/
def rooted (stack : List StackFrame) : Bool := stack.getLast?.any isRoot

/-- Puts an inline into the innermost frame. -/
def pushInline? (inline : Inline) : List StackFrame → Option (List StackFrame)
  | [] => none
  | frame :: outer => if rooted (frame :: outer) then some (frame.put inline :: outer) else none

/-- Closes the innermost containers as long as they have ended, each into the frame below it. -/
def closeFrames? (registry : Registry) (ended : Nat → Bool) :
    List StackFrame → Option (List StackFrame)
  | [] => none
  | root content :: outer => some (root content :: outer)
  | container mark stop noteNumber content :: outer =>
    if ended stop then do
      let entry ← registry.entry? mark
      match outer with
      | [] => none
      | frame :: outer =>
        if rooted (frame :: outer) then
          closeFrames? registry ended
            (frame.put (entry.container.wrap content.reverse noteNumber) :: outer)
        else none
    else some (container mark stop noteNumber content :: outer)
termination_by stack => stack.length

/-- What was put into the root, when only that is left. -/
def rootContent? : List StackFrame → Option (List Inline)
  | [root content] => some content.reverse
  | _ => none

end StackFrame

/-! ## Stacks for nests -/

/-- What the registry had it still has later on. -/
theorem Progress.Leads.has {before after : Progress} (h : before.Leads after) {mark : Nat}
    (hmark : before.registry.Has mark) : after.registry.Has mark := by
  obtain ⟨marks, hregistry⟩ := h.registered
  obtain ⟨entry, hentry⟩ := hmark
  exact ⟨entry, by rw [hregistry]; exact Registry.entry?_register hentry marks⟩

/-- The stack holds the containers of the nest above a root with all that is complete. -/
inductive Stands (registry : Registry) : List StackFrame → Nest → Prop where
  | root (done : List Inline) : Stands registry [.root done] ⟨[], done⟩
  | container {stack : List StackFrame} {frames : List Frame} {done content : List Inline}
      {mark stop noteNumber : Nat} {entry : Entry} (known : registry.entry? mark = some entry)
      (outer : Stands registry stack ⟨frames, done⟩) :
      Stands registry (.container mark stop noteNumber content :: stack)
        ⟨⟨entry.container, stop, noteNumber, content⟩ :: frames, done⟩

namespace Stands

open StackFrame

variable {registry : Registry} {stack : List StackFrame} {nest : Nest}

theorem rooted (h : Stands registry stack nest) : rooted stack = true := by
  induction h with
  | root done => rfl
  | @container stack frames done content mark stop noteNumber entry known outer ih =>
      unfold StackFrame.rooted at *
      cases stack with
      | nil => cases outer
      | cons frame rest => rwa [List.getLast?_cons_cons]

/-- The entries that a stack needs are still there when the registry has grown. -/
theorem leads {before after : Progress} (h : Stands before.registry stack nest)
    (hleads : before.Leads after) : Stands after.registry stack nest := by
  obtain ⟨marks, hregistry⟩ := hleads.registered
  induction h with
  | root done => exact .root done
  | container known _ ih =>
      refine .container ?_ ih
      rw [hregistry]
      exact Registry.entry?_register known marks

theorem put (inline : Inline) {frame : StackFrame} {outer : List StackFrame}
    (h : Stands registry (frame :: outer) nest) :
    Stands registry (frame.put inline :: outer) (nest.put inline) := by
  cases h with
  | root done => exact .root (inline :: done)
  | container known outer => exact .container known outer

theorem length_frames_put (inline : Inline) (nest : Nest) :
    (nest.put inline).frames.length = nest.frames.length := by
  obtain ⟨frames, done⟩ := nest
  cases frames <;> rfl

/-- No container stays open when all have ended. -/
theorem frames_closeFrames_true (done : List Inline) (closed : Option Inline)
    (frames : List Frame) : (Nest.closeFrames (fun _ => true) done closed frames).frames = [] := by
  induction frames generalizing closed with
  | nil => rfl
  | cons frame outer ih => exact ih _

theorem exists_pushInline? (inline : Inline) (h : Stands registry stack nest) :
    ∃ stack', pushInline? inline stack = some stack' ∧
      Stands registry stack' (nest.put inline) := by
  cases stack with
  | nil => cases h
  | cons frame outer => exact ⟨_, if_pos h.rooted, h.put inline⟩

/-- Closing containers has a result, and the stack stands for what is left of the nest. -/
theorem exists_closeFrames? (ended : Nat → Bool) {frames : List Frame} {done : List Inline}
    (h : Stands registry stack ⟨frames, done⟩) :
    ∃ stack', closeFrames? registry ended stack = some stack' ∧
      Stands registry stack'
        (Nest.closeFrames (fun frame => ended frame.stop) done none frames) := by
  generalize hlength : frames.length = n
  induction n generalizing stack frames done with
  | zero =>
      obtain rfl := List.length_eq_zero_iff.mp hlength
      cases h with
      | root done => exact ⟨[.root done], by rw [closeFrames?], .root done⟩
  | succ n ih =>
      cases h with
      | root done => cases hlength
      | @container stack frames done content mark stop noteNumber entry known outer =>
          by_cases hended : ended stop = true
          · cases stack with
            | nil => cases outer
            | cons frame rest =>
                -- the closed container goes into the frame below, as deep as before
                let inline := entry.container.wrap content.reverse noteNumber
                have hput : (Nest.put inline ⟨frames, done⟩).frames.length = n := by
                  rw [length_frames_put]
                  exact Nat.succ.inj hlength
                obtain ⟨stack', hclose, hstands⟩ := ih (outer.put inline) hput
                refine ⟨stack', ?_, ?_⟩
                · rw [closeFrames?, if_pos hended, known]
                  dsimp only [Option.bind_eq_bind, Option.bind_some]
                  rw [if_pos outer.rooted, hclose]
                · rw [Nest.closeFrames]
                  dsimp only
                  rw [if_pos hended, Growth.closeFrames_some]
                  exact hstands
          · refine ⟨_, by rw [closeFrames?, if_neg hended], ?_⟩
            rw [Nest.closeFrames]
            dsimp only
            rw [if_neg hended]
            exact .container known outer

/-- When everything is closed, the root holds what the nest gives. -/
theorem exists_close (h : Stands registry stack nest) :
    ∃ stack', closeFrames? registry (fun _ => true) stack = some stack' ∧
      rootContent? stack' = some nest.close := by
  obtain ⟨stack', hclose, hstands⟩ := h.exists_closeFrames? fun _ => true
  refine ⟨stack', hclose, ?_⟩
  have hnone : (Nest.closeFrames (fun _ => true) nest.done none nest.frames).frames = [] :=
    frames_closeFrames_true ..
  rw [Nest.close]
  generalize Nest.closeFrames (fun _ => true) nest.done none nest.frames = closed at hstands hnone ⊢
  cases hstands with
  | root done => rfl
  | container _ _ => cases hnone

end Stands

end RichDoc
