import RichDoc.Export.Collect

/-!
# Containers around chunks

Given ranges that nest, sorted for opening, one walk over the chunks
builds the containers. At each position the containers that end there are
closed, innermost first, then those that start there are opened, and then
the chunk is put into the innermost open one.

A citation takes the next note number when it is opened first. The pieces
of a range that was cut share its origin, and a later piece takes the
number of the first.
-/

namespace RichDoc

open Pandoc (Inline)

/-- An open container. -/
structure Frame where
  container : Container
  stop : Nat
  noteNumber : Nat
  /-- What has been put into it, the last first. -/
  content : List Inline := []

namespace Frame

def inline (frame : Frame) : Inline :=
  frame.container.wrap frame.content.reverse frame.noteNumber

def put (inline : Inline) (frame : Frame) : Frame :=
  { frame with content := inline :: frame.content }

end Frame

/-- The containers that are open, innermost first, around what is complete, the last first. -/
structure Nest where
  frames : List Frame := []
  done : List Inline := []

namespace Nest

def put (inline : Inline) (nest : Nest) : Nest :=
  match nest.frames with
  | [] => { nest with done := inline :: nest.done }
  | frame :: outer => { nest with frames := frame.put inline :: outer }

/-- Closes the innermost containers as long as they have ended. `closed`
is what the last container became that was closed. -/
def closeFrames (ended : Frame → Bool) (done : List Inline) :
    (closed : Option Inline) → List Frame → Nest
  | closed, [] => ⟨[], closed.toList ++ done⟩
  | closed, frame :: outer =>
    let frame := { frame with content := closed.toList ++ frame.content }
    if ended frame then closeFrames ended done (some frame.inline) outer
    else ⟨frame :: outer, done⟩

/-- Closes the containers that end at a position or before it. -/
def closeAt (position : Nat) (nest : Nest) : Nest :=
  closeFrames (fun frame => frame.stop ≤ position) nest.done none nest.frames

/-- Closes all containers. -/
def close (nest : Nest) : List Inline :=
  (closeFrames (fun _ => true) nest.done none nest.frames).done.reverse

end Nest

/-- The walk over the chunks. -/
structure Assembly where
  nest : Nest := {}
  /-- The ranges that have not been opened. -/
  pending : List MarkRange
  /-- The note numbers of citations by the origins of their ranges. -/
  numbered : List (Nat × Nat) := []

namespace Export

/-- The container of a registered mark. -/
def containerOf (mark : Nat) : Export Container := do
  match (← get).registry.entry? mark with
  | some entry => return entry.container
  | none => return .span {}

/-- Opens the container of a range. -/
def openFrame (nest : Nest) (numbered : List (Nat × Nat)) (range : MarkRange) :
    Export (Nest × List (Nat × Nat)) := do
  let container ← containerOf range.mark
  let (noteNumber, numbered) ← match numbered.lookup range.origin with
    | some number => pure (number, numbered)
    | none =>
      if container.isCitation then
        let number ← nextCitation
        pure (number, (range.origin, number) :: numbered)
      else pure (0, numbered)
  let frame : Frame := { container, stop := range.stop, noteNumber }
  return ({ nest with frames := frame :: nest.frames }, numbered)

/-- Opens the containers that start at a position. -/
def openAt (position : Nat) (nest : Nest) (numbered : List (Nat × Nat)) :
    List MarkRange → Export Assembly
  | [] => return ⟨nest, [], numbered⟩
  | range :: rest => do
    if range.start = position then
      let (nest, numbered) ← openFrame nest numbered range
      openAt position nest numbered rest
    else return ⟨nest, range :: rest, numbered⟩

/-- The inline of a chunk. -/
def emit : Chunk → Export Inline
  | .leaf inline => return inline
  | .note index content => descend index NodeKind.note.name (Inline.note <$> content)

def assembleFrom (position : Nat) (assembly : Assembly) : List Chunk → Export Assembly
  | [] => return assembly
  | chunk :: rest => do
    let assembly ← openAt position (assembly.nest.closeAt position) assembly.numbered
      assembly.pending
    let inline ← emit chunk
    assembleFrom (position + 1) { assembly with nest := assembly.nest.put inline } rest

/-- The inlines of chunks under ranges that nest. -/
def assemble (chunks : List Chunk) (ranges : List MarkRange) : Export (List Inline) := do
  return (← assembleFrom 0 { pending := ranges } chunks).nest.close

/-- Ranges cut so that they nest, by the priority of their marks. -/
def untangled (ranges : List MarkRange) : Export (List MarkRange) := do
  match untangle (← markOrder) ranges with
  | .ok ranges => return ranges
  | .error cause => throw (.diverged cause)

/-- The children as inlines. -/
def inlines (children : List Prepared) : Export (List Inline) := do
  let (chunks, ranges) ← collect children
  assemble chunks (← untangled ranges)

end Export

end RichDoc
