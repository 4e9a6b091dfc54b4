import RichDoc.Export.Leaf
import RichDoc.Export.Prepared

/-!
# Chunks and ranges

The inline children of a node are laid out as a row of chunks, and the
marks on the children become ranges over that row, one for every maximal
run of children that carry a mark. Some children are breakpoints: a range
runs on over them if the next child that is none carries the mark as
well, but no range starts or ends at one. A child without chunks, an
empty text, neither starts nor ends a range.

A text under a code or math mark is a single chunk without marks. A
footnote is converted when the containers around it are built, so that
citations in it are numbered in the order of the document.
-/

namespace RichDoc

open Pandoc (Inline Block)

inductive Chunk where
  | leaf (inline : Inline)
  /-- The footnote that is the child with this index. -/
  | note (index : Nat) (content : Export (List Block))

/-- What a child brings to the row. -/
inductive Contribution where
  | breakpoint (chunk : Chunk)
  | run (chunks : List Chunk) (marks : List Nat)

def Contribution.chunks : Contribution → List Chunk
  | .breakpoint chunk => [chunk]
  | .run chunks _ => chunks

/-! ## Contributions -/

namespace Export

/-- The leaf of a text under a code or math mark, the first of them if
there are several. Marks are registered up to that one. -/
def opaqueLeaf? (text : String) : List Mark → Export (Option Inline)
  | [] => return none
  | mark :: rest => do
    let _ ← indexOf mark
    match (Container.ofMark (.ofName mark.type) mark).leaf? text with
    | some leaf => return some leaf
    | none => opaqueLeaf? text rest

/-- The indexes of marks, without repetitions. -/
def markIndexes (marks : List Mark) : Export (List Nat) := do
  return (← marks.mapM indexOf).eraseDups

/-- The contribution of a single leaf with marks. -/
def markedLeaf (leaf : Inline) (marks : List Mark) : Export Contribution := do
  return .run [.leaf leaf] (← markIndexes marks)

def contribute (index : Nat) (child : Prepared) : Export Contribution := do
  let node := child.node
  match ← kindOf node with
  | .hardBreak => return .breakpoint (.leaf .lineBreak)
  | .note => return .breakpoint (.note index (blocks child.children))
  | .indexRef => return .breakpoint (.leaf (node.indexRef (← read).settings))
  | .emptySpan => return .breakpoint (.leaf node.emptySpan)
  | .text =>
    let text := node.text.getD ""
    match ← opaqueLeaf? text node.marks with
    | some leaf => return .run [.leaf leaf] []
    | none => return .run ((Inline.ofText text).map .leaf) (← markIndexes node.marks)
  | .image => markedLeaf node.image node.marks
  | .rawInline => markedLeaf node.rawInline node.marks
  | other => misplaced other

end Export

/-! ## Ranges -/

/-- A range that is being collected. -/
structure Run where
  range : MarkRange
  /-- The range may still become longer. -/
  isOpen : Bool
deriving Repr

/-- What becomes of a run when chunks with certain marks, up to `stop`, follow. -/
def Run.follow (marks : List Nat) (stop : Nat) (run : Run) : Run :=
  if run.isOpen then
    if run.range.mark ∈ marks then { run with range.stop := stop }
    else { run with isOpen := false }
  else run

/-- The runs after chunks from `start` to `stop` with certain marks: open
runs go on or end, and marks without an open run start one. -/
def follow (marks : List Nat) (start stop : Nat) (runs : List Run) : List Run :=
  let fresh := marks.filter fun mark => !runs.any fun run => run.isOpen && run.range.mark == mark
  runs.map (Run.follow marks stop)
    ++ (fresh.zipIdx runs.length).map fun (mark, origin) => ⟨⟨mark, start, stop, origin⟩, true⟩

/-- Goes through the contributions, given the chunks before them and the runs so far. -/
def runsFrom (start : Nat) (runs : List Run) : List Contribution → List Run
  | [] => runs
  | .breakpoint _ :: rest => runsFrom (start + 1) runs rest
  | .run chunks marks :: rest =>
    let stop := start + chunks.length
    runsFrom stop (if chunks.isEmpty then runs else follow marks start stop runs) rest

/-- The ranges of the marks over the chunks of all contributions. -/
def collectRanges (contributions : List Contribution) : List MarkRange :=
  (runsFrom 0 [] contributions).map Run.range

namespace Export

/-- The chunks of inline children and the ranges over them, which may cross. -/
def collect (children : List Prepared) : Export (List Chunk × List MarkRange) := do
  let contributions ← eachChild contribute children
  return (contributions.flatMap Contribution.chunks, collectRanges contributions)

end Export

end RichDoc
