import RichDoc.Export.Metadata
import RichDoc.Export.Table

/-!
# Blocks

What each type of node turns into among blocks. Inline types, metadata
and the parts of lists and tables cannot stand there.
-/

namespace RichDoc

open Pandoc (Block Caption Definition Inline ListAttributes ListNumberDelim ListNumberStyle)

/-- The class of a note container. -/
def noteDivClass : String := "note"

namespace Node

/-- The level of a heading, drawn into the range from one to six. -/
def headingLevel (node : Node) : Int :=
  max 1 (min 6 ((node.attrs.integer? "level").getD 1))

def listNumberStyle (node : Node) : ListNumberStyle :=
  match node.attrs.string? "numberStyle" with
  | some "decimal" => .decimal
  | some "lowerAlpha" => .lowerAlpha
  | some "upperAlpha" => .upperAlpha
  | some "lowerRoman" => .lowerRoman
  | some "upperRoman" => .upperRoman
  | some "example" => .exampleStyle
  | _ => .defaultStyle

def listNumberDelim (node : Node) : ListNumberDelim :=
  match node.attrs.string? "numberDelim" with
  | some "period" => .period
  | some "oneParen" => .oneParen
  | some "twoParens" => .twoParens
  | _ => .defaultDelim

def listAttributes (node : Node) : ListAttributes where
  start := (node.attrs.int32? "start").getD 1
  style := node.listNumberStyle
  delim := node.listNumberDelim

end Node

namespace Export

/-! ## Lists -/

def listItem (_index : Nat) (child : Prepared) : Export (List Block) := do
  match ← kindOf child.node with
  | .listItem => blocks child.children
  | other => structural ("list items must be 'listItem', found '" ++ other.name ++ "'")

def listItems (children : List Prepared) : Export (List (List Block)) :=
  eachChild listItem children

/-- Adds a term or a definition to the items so far, the last of which comes first. -/
def definitionPart (items : List Definition) (child : Prepared) : Export (List Definition) := do
  match ← kindOf child.node with
  | .definitionTerm => match items with
    | ⟨_, []⟩ :: _ => structural "definition term is not followed by a definition"
    | _ => return ⟨← inlines child.children, []⟩ :: items
  | .definitionData => match items with
    | [] => structural "definition has no preceding term"
    | ⟨term, definitions⟩ :: rest =>
      let content ← blocks child.children
      return ⟨term, definitions ++ [content]⟩ :: rest
  | other =>
    structural
      ("definition lists may only contain terms and definitions, found '" ++ other.name ++ "'")

def definitionList (children : List Prepared) : Export Block := do
  match ← foldChildren definitionPart 0 [] children with
  | ⟨_, []⟩ :: _ => structural "last definition term has no definition"
  | items => return .definitionList items.reverse

/-! ## Figures -/

/-- What a child of a figure is. -/
inductive FigurePart where
  | caption (content : List Inline)
  | content (block : Block)

def figurePart (_index : Nat) (child : Prepared) : Export FigurePart := do
  match ← kindOf child.node with
  | .figureCaption => .caption <$> inlines child.children
  | _ => .content <$> child.block

def FigurePart.caption? : FigurePart → Option (List Inline)
  | .caption inlines => some inlines
  | .content _ => none

def FigurePart.content? : FigurePart → Option Block
  | .caption _ => none
  | .content block => some block

/-- A figure; of several captions the last one counts. -/
def figure (node : Node) (children : List Prepared) : Export Block := do
  let parts ← eachChild figurePart children
  let caption := match (parts.filterMap FigurePart.caption?).getLast? with
    | some content => Caption.ofInlines content
    | none => .empty
  return .figure node.attrs.element caption (parts.filterMap FigurePart.content?)

/-! ## All blocks -/

def blockOf (node : Node) (children : List Prepared) : Export Block := do
  let attrs := node.attrs
  match ← kindOf node with
  | .paragraph => .para <$> inlines children
  | .heading => .header node.headingLevel attrs.element <$> inlines children
  | .bulletList => .bulletList <$> listItems children
  | .orderedList => .orderedList node.listAttributes <$> listItems children
  | .definitionList => definitionList children
  | .blockQuote => .blockQuote <$> blocks children
  | .codeBlock => return .codeBlock attrs.codeElement node.textContent
  | .rawBlock => return .rawBlock node.rawFormat node.textContent
  | .div => .div attrs.element <$> blocks children
  | .note => .div (attrs.element.withClass noteDivClass) <$> blocks children
  | .indexDiv => .div node.indexDivAttr <$> blocks children
  | .figure => figure node children
  | .horizontalRule => return .horizontalRule
  | .table => table node children
  | .image => return .plain [node.image]
  | other => misplaced other

end Export

end RichDoc
