import RichDoc.Document.Element
import RichDoc.Export.Context

/-!
# Prepared nodes

A footnote stands among inlines and holds blocks, and blocks hold inlines
again. To convert without going round in circles, a node is first given,
from the leaves up, the conversions of all nodes below it: what it is as
a block and what it is as a metadata value. Nothing is run by that.
Afterwards each converter looks at one node and a list of prepared
children, and no converter calls itself.
-/

namespace RichDoc

open Pandoc (Block MetaValue)

/-- A node with the conversions that its parent may ask for. -/
structure Prepared where
  node : Node
  /-- The node as a block. -/
  block : Export Block
  /-- The node as a metadata value. -/
  metaValue : Export MetaValue
  children : List Prepared

namespace Export

/-- Converts children in order, each with itself on the path, and numbers
them from `index` on. -/
def eachChildFrom (convert : Nat → Prepared → Export α) (index : Nat) :
    List Prepared → Export (List α)
  | [] => return []
  | child :: rest => do
    let x ← descend index child.node.type (convert index child)
    let xs ← eachChildFrom convert (index + 1) rest
    return x :: xs

/-- Converts children in order, each with itself on the path. -/
def eachChild (convert : Nat → Prepared → Export α) (children : List Prepared) :
    Export (List α) :=
  eachChildFrom convert 0 children

/-- Goes through children in order, each with itself on the path. -/
def foldChildren (convert : σ → Prepared → Export σ) (index : Nat) (state : σ) :
    List Prepared → Export σ
  | [] => return state
  | child :: rest => do
    let state ← descend index child.node.type (convert state child)
    foldChildren convert (index + 1) state rest

/-- The children as blocks. -/
def blocks (children : List Prepared) : Export (List Block) :=
  eachChild (fun _ child => child.block) children

end Export

end RichDoc
