/-!
# Node types

The closed vocabulary of node types. A document names its types by
strings; `NodeKind.ofName?` and `NodeKind.name` go back and forth.
-/

namespace RichDoc

inductive NodeKind where
  | doc
  | metadata | metaEntry | metaMap | metaList | metaString | metaBool | metaInlines | metaBlocks
  | paragraph | heading
  | bulletList | orderedList | listItem
  | definitionList | definitionTerm | definitionData
  | blockQuote | codeBlock | rawBlock | div
  | figure | figureCaption
  | indexDiv | horizontalRule
  | table | tableHead | tableBody | tableFoot | tableRow | tableCell | tableHeaderCell
  /-- A footnote among inlines, a note container among blocks. -/
  | note
  | text | hardBreak | rawInline | image | indexRef | emptySpan
deriving DecidableEq, Repr

namespace NodeKind

def name : NodeKind → String
  | doc => "doc"
  | metadata => "metadata"
  | metaEntry => "metaEntry"
  | metaMap => "metaMap"
  | metaList => "metaList"
  | metaString => "metaString"
  | metaBool => "metaBool"
  | metaInlines => "metaInlines"
  | metaBlocks => "metaBlocks"
  | paragraph => "paragraph"
  | heading => "heading"
  | bulletList => "bulletList"
  | orderedList => "orderedList"
  | listItem => "listItem"
  | definitionList => "definitionList"
  | definitionTerm => "definitionTerm"
  | definitionData => "definitionData"
  | blockQuote => "blockQuote"
  | codeBlock => "codeBlock"
  | rawBlock => "rawBlock"
  | div => "div"
  | figure => "figure"
  | figureCaption => "figureCaption"
  | indexDiv => "indexDiv"
  | horizontalRule => "horizontalRule"
  | table => "table"
  | tableHead => "tableHead"
  | tableBody => "tableBody"
  | tableFoot => "tableFoot"
  | tableRow => "tableRow"
  | tableCell => "tableCell"
  | tableHeaderCell => "tableHeaderCell"
  | note => "note"
  | text => "text"
  | hardBreak => "hardBreak"
  | rawInline => "rawInline"
  | image => "image"
  | indexRef => "indexRef"
  | emptySpan => "emptySpan"

/-- Every node type. -/
def all : List NodeKind :=
  [doc, metadata, metaEntry, metaMap, metaList, metaString, metaBool, metaInlines, metaBlocks,
    paragraph, heading, bulletList, orderedList, listItem, definitionList, definitionTerm,
    definitionData, blockQuote, codeBlock, rawBlock, div, figure, figureCaption, indexDiv,
    horizontalRule, table, tableHead, tableBody, tableFoot, tableRow, tableCell, tableHeaderCell,
    note, text, hardBreak, rawInline, image, indexRef, emptySpan]

/-- The node type of a name, if there is one. -/
def ofName? (name : String) : Option NodeKind := all.find? (·.name == name)

theorem name_of_ofName? {name : String} {kind : NodeKind} (h : ofName? name = some kind) :
    kind.name = name := by
  simpa using List.find?_some h

theorem ofName?_name (kind : NodeKind) : ofName? kind.name = some kind := by
  cases kind <;> decide +kernel

end NodeKind

end RichDoc
