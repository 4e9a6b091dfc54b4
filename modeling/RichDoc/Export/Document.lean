import RichDoc.Export.Block

/-!
# Exporting documents

The conversions of whole nodes, tied together from the converters of each
kind of children, and the export of a document: its metadata, if it
starts with some, its blocks, and the text of it all.
-/

namespace RichDoc

open Pandoc (Block Inline MetaValue Document)

/-! ## Nodes -/

namespace Prepared

mutual

def ofNode : Node → Prepared
  | ⟨type, attrs, content, marks, text⟩ =>
    let node : Node := ⟨type, attrs, content, marks, text⟩
    let children := ofNodes content
    { node, block := Export.blockOf node children, metaValue := Export.metaValueOf node children,
      children }

def ofNodes : List Node → List Prepared
  | [] => []
  | node :: rest => ofNode node :: ofNodes rest

end

end Prepared

namespace Node

/-- The node as a block. -/
def toBlock (node : Node) : Export Block := (Prepared.ofNode node).block

end Node

namespace Export

/-- Nodes as blocks, numbered from the first. -/
def blocksOf (nodes : List Node) : Export (List Block) := blocks (Prepared.ofNodes nodes)

/-- Nodes as inlines, numbered from the first. -/
def inlinesOf (nodes : List Node) : Export (List Inline) := inlines (Prepared.ofNodes nodes)

/-- The chunks of nodes and the ranges over them, which may cross. -/
def collectOf (nodes : List Node) : Export (List Chunk × List MarkRange) :=
  collect (Prepared.ofNodes nodes)

/-! ## Documents -/

/-- What a child of the root is. -/
inductive DocumentPart where
  | metadata (entries : List (String × MetaValue))
  | block (block : Block)

def documentPart (index : Nat) (child : Prepared) : Export DocumentPart := do
  match ← kindOf child.node with
  | .metadata =>
    if index = 0 then .metadata <$> metadata child.children
    else structural "metadata must be the first child of the document"
  | _ => .block <$> child.block

def DocumentPart.block? : DocumentPart → Option Block
  | .metadata _ => none
  | .block content => some content

/-- The metadata of a document, which only its first part can be. -/
def metadataOf : List DocumentPart → List (String × MetaValue)
  | .metadata entries :: _ => entries
  | _ => []

/-- The document below a root node. -/
def documentOf (root : Node) : Export Document := do
  match ← kindOf root with
  | .doc =>
    let parts ← eachChild documentPart (Prepared.ofNodes root.content)
    return {
      apiVersion := (← read).settings.apiVersion
      metadata := metadataOf parts
      blocks := parts.filterMap DocumentPart.block? }
  | other => structural ("document root must be 'doc', found '" ++ other.name ++ "'")

end Export

namespace Node

/-- The document below a root node, or why there is none. -/
def toDocument (environment : Environment) (root : Node) : Except ExportError Document :=
  (Export.documentOf root).run environment

/-- The text of the document below a root node. -/
def exportText (environment : Environment) (root : Node) : Except ExportError String :=
  (root.toDocument environment).map (Document.write environment.settings.indent)

end Node

end RichDoc
