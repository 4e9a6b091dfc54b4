import RichDoc.Export.Prepared
import RichDoc.Pandoc.Words
import RichDoc.Table.Grid
import RichDoc.Table.Width

/-!
# Tables

A table holds rows, or else sections that hold rows: a head, bodies and a
foot. Of bare rows the first ones, as many as the table says, make up the
head and the others one body.
-/

namespace RichDoc.Export

open Pandoc (Attr Block Caption Cell ColSpec Inline Row TableBody TableSection)

/-! ## Cells and rows -/

/-- A cell spans at most this many rows or columns. -/
def maxSpan : Int := 1000

/-- How many rows or columns a cell spans; less than one is one. -/
def span (attrs : Attributes) (key : String) : Export Int := do
  match attrs.integer? key with
  | none => return 1
  | some n =>
    if max 1 n ≤ maxSpan then return max 1 n
    else structural (key ++ " " ++ toString n ++ " is larger than " ++ toString maxSpan)

def cellAlignment (attrs : Attributes) : Pandoc.Alignment :=
  match attrs.string? "align" with
  | some "left" => .left
  | some "center" => .center
  | some "right" => .right
  | _ => .default

def cell (_index : Nat) (child : Prepared) : Export Cell := do
  let attrs := child.node.attrs
  match ← kindOf child.node with
  | .tableCell | .tableHeaderCell =>
    let rowSpan ← span attrs "rowspan"
    let colSpan ← span attrs "colspan"
    let content ← blocks child.children
    return ⟨attrs.element, cellAlignment attrs, rowSpan, colSpan, content⟩
  | other => misplaced other

/-- A row; the caller has made sure that the node is one. -/
def rowOf (child : Prepared) : Export Row := do
  return ⟨child.node.attrs.element, ← eachChild cell child.children⟩

def row (_index : Nat) (child : Prepared) : Export Row := do
  match ← kindOf child.node with
  | .tableRow => rowOf child
  | other => misplaced other

def rows (children : List Prepared) : Export (List Row) := eachChild row children

/-! ## Sections -/

/-- What a child of a table is. -/
inductive TablePart where
  | head (content : TableSection)
  | body (attr : Attr) (rows : List Row)
  | foot (content : TableSection)
  | bareRow (row : Row)

def tablePart (_index : Nat) (child : Prepared) : Export TablePart := do
  let attr := child.node.attrs.element
  match ← kindOf child.node with
  | .tableHead => return .head ⟨attr, ← rows child.children⟩
  | .tableBody => return .body attr (← rows child.children)
  | .tableFoot => return .foot ⟨attr, ← rows child.children⟩
  | .tableRow => .bareRow <$> rowOf child
  | other => misplaced other

def TablePart.bareRow? : TablePart → Option Row
  | .bareRow row => some row
  | _ => none

/-- The head, the bodies and the foot of a table. -/
structure TableSections where
  head : TableSection := ⟨{}, []⟩
  bodies : List TableBody := []
  foot : TableSection := ⟨{}, []⟩

namespace TableSections

/-- The sections with one more part. A second head or foot replaces the first. -/
def add (rowHeadColumns : Int) (sections : TableSections) : TablePart → TableSections
  | .head content => { sections with head := content }
  | .body attr rows =>
    { sections with bodies := sections.bodies ++ [⟨attr, rowHeadColumns, [], rows⟩] }
  | .foot content => { sections with foot := content }
  | .bareRow _ => sections

/-- The sections of bare rows, the first `headerRows` of which are the head. -/
def ofRows (rowHeadColumns : Int) (headerRows : Nat) (rows : List Row) : TableSections where
  head := ⟨{}, rows.take headerRows⟩
  bodies := [⟨{}, rowHeadColumns, [], rows.drop headerRows⟩]

/-- The rows of every section, in order. -/
def allRows (sections : TableSections) : List (List Row) :=
  [sections.head.rows] ++ sections.bodies.flatMap (fun body => [body.headRows, body.rows])
    ++ [sections.foot.rows]

end TableSections

/-- How many bare rows belong to the head. -/
def headerRows (attrs : Attributes) (rows : Nat) : Nat :=
  min ((attrs.integer? "headerRows").getD 0).toNat rows

/-- How many columns at the left are row heads. -/
def rowHeadColumns (attrs : Attributes) : Int := max 0 ((attrs.int32? "headerColumns").getD 0)

def tableSections (attrs : Attributes) (parts : List TablePart) : Export TableSections := do
  let bare := parts.filterMap TablePart.bareRow?
  if bare.isEmpty then
    return parts.foldl (TableSections.add (rowHeadColumns attrs)) {}
  else if parts.length ≠ bare.length then
    structural "table rows cannot be mixed with head, body or foot sections"
  else return .ofRows (rowHeadColumns attrs) (headerRows attrs bare.length) bare

/-! ## Tables -/

def columnSpecs (attrs : Attributes) (sections : TableSections) : List ColSpec :=
  let alignments := columnAlignments sections.allRows
  List.zipWith ColSpec.mk alignments (columnWidths attrs alignments.length)

def tableCaption (attrs : Attributes) : Caption :=
  match attrs.string? "caption" with
  | some text => .ofInlines (Inline.ofText text)
  | none => .empty

def table (node : Node) (children : List Prepared) : Export Block := do
  let parts ← eachChild tablePart children
  let sections ← tableSections node.attrs parts
  return .table {
    attr := node.attrs.element
    caption := tableCaption node.attrs
    columns := columnSpecs node.attrs sections
    head := sections.head
    bodies := sections.bodies
    foot := sections.foot }

end RichDoc.Export
