import RichDoc.Pandoc.Written
import RichDoc.Proofs.Json.Compact

/-!
# The doubles of a document

Of all numbers in a document only the widths of table columns are
doubles, and tables stand at any depth: in blocks, in cells of other
tables and in footnotes. The doubles in the JSON of a value are just the
widths in the value (`Block.doubles_toJson` and its like), so it is
enough to look at the widths to see that all of its numbers can be
written.
-/

namespace RichDoc

/-! ## Doubles in JSON -/

namespace Json

open Decimal (IsFinite)

mutual

/-- The doubles in a value, from front to back. -/
def doubles : Json → List Float
  | .null | .bool _ | .int _ | .str _ => []
  | .float x => [x]
  | .arr items => itemsDoubles items
  | .obj members => membersDoubles members

def itemsDoubles : List Json → List Float
  | [] => []
  | item :: rest => item.doubles ++ itemsDoubles rest

def membersDoubles : Attributes → List Float
  | [] => []
  | (_, value) :: rest => value.doubles ++ membersDoubles rest

end

mutual

theorem finite_of_doubles : ∀ {x : Json}, (∀ d ∈ x.doubles, IsFinite d) → x.Finite
  | .null, _ | .bool _, _ | .int _, _ | .str _, _ => trivial
  | .float _, h => h _ List.mem_cons_self
  | .arr _, h => finiteItems_of_doubles h
  | .obj _, h => finiteMembers_of_doubles h

theorem finiteItems_of_doubles :
    ∀ {items : List Json}, (∀ d ∈ itemsDoubles items, IsFinite d) → FiniteItems items
  | [], _ => trivial
  | _ :: _, h =>
    have hparts := List.forall_mem_append.mp h
    ⟨finite_of_doubles hparts.1, finiteItems_of_doubles hparts.2⟩

theorem finiteMembers_of_doubles :
    ∀ {members : Attributes}, (∀ d ∈ membersDoubles members, IsFinite d) → FiniteMembers members
  | [], _ => trivial
  | (_, _) :: _, h =>
    have hparts := List.forall_mem_append.mp h
    ⟨finite_of_doubles hparts.1, finiteMembers_of_doubles hparts.2⟩

end

end Json

namespace Pandoc

/-! ## Widths -/

def ColWidth.widths : ColWidth → List Float
  | .fraction width => [width]
  | .unset => []

def ColSpec.widths (spec : ColSpec) : List Float := spec.width.widths

mutual

/-- The widths of all table columns in an inline, from front to back. -/
def Inline.widths : Inline → List Float
  | .emph content | .underline content | .strong content | .strikeout content
  | .superscript content | .subscript content | .smallCaps content | .quoted _ content
  | .link _ content _ | .span _ content | .image _ content _ => inlinesWidths content
  | .cite citations content => citationsWidths citations ++ inlinesWidths content
  | .note content => blocksWidths content
  | .str _ | .code _ _ | .space | .softBreak | .lineBreak | .math _ _ | .rawInline _ _ => []

def inlinesWidths : List Inline → List Float
  | [] => []
  | inline :: rest => inline.widths ++ inlinesWidths rest

def Citation.widths : Citation → List Float
  | ⟨_, before, after, _, _, _⟩ => inlinesWidths before ++ inlinesWidths after

def citationsWidths : List Citation → List Float
  | [] => []
  | citation :: rest => citation.widths ++ citationsWidths rest

def linesWidths : List (List Inline) → List Float
  | [] => []
  | line :: rest => inlinesWidths line ++ linesWidths rest

def Block.widths : Block → List Float
  | .plain content | .para content | .header _ _ content => inlinesWidths content
  | .lineBlock lines => linesWidths lines
  | .codeBlock _ _ | .rawBlock _ _ | .horizontalRule => []
  | .blockQuote content | .div _ content => blocksWidths content
  | .orderedList _ items | .bulletList items => itemsWidths items
  | .definitionList items => definitionsWidths items
  | .table table => table.widths
  | .figure _ caption content => caption.widths ++ blocksWidths content

def blocksWidths : List Block → List Float
  | [] => []
  | block :: rest => block.widths ++ blocksWidths rest

def itemsWidths : List (List Block) → List Float
  | [] => []
  | item :: rest => blocksWidths item ++ itemsWidths rest

def Definition.widths : Definition → List Float
  | ⟨term, definitions⟩ => inlinesWidths term ++ itemsWidths definitions

def definitionsWidths : List Definition → List Float
  | [] => []
  | definition :: rest => definition.widths ++ definitionsWidths rest

def Caption.widths : Caption → List Float
  | ⟨none, body⟩ => blocksWidths body
  | ⟨some short, body⟩ => inlinesWidths short ++ blocksWidths body

def Table.widths : Table → List Float
  | ⟨_, caption, columns, head, bodies, foot⟩ =>
    caption.widths ++ columns.flatMap ColSpec.widths ++ head.widths ++ bodiesWidths bodies
      ++ foot.widths

def TableSection.widths : TableSection → List Float
  | ⟨_, rows⟩ => rowsWidths rows

def TableBody.widths : TableBody → List Float
  | ⟨_, _, headRows, rows⟩ => rowsWidths headRows ++ rowsWidths rows

def bodiesWidths : List TableBody → List Float
  | [] => []
  | body :: rest => body.widths ++ bodiesWidths rest

def Row.widths : Row → List Float
  | ⟨_, cells⟩ => cellsWidths cells

def rowsWidths : List Row → List Float
  | [] => []
  | row :: rest => row.widths ++ rowsWidths rest

def Cell.widths : Cell → List Float
  | ⟨_, _, _, _, content⟩ => blocksWidths content

def cellsWidths : List Cell → List Float
  | [] => []
  | cell :: rest => cell.widths ++ cellsWidths rest

end

mutual

def MetaValue.widths : MetaValue → List Float
  | .map entries => entriesWidths entries
  | .list items => valuesWidths items
  | .bool _ | .string _ => []
  | .inlines content => inlinesWidths content
  | .blocks content => blocksWidths content

def entriesWidths : List (String × MetaValue) → List Float
  | [] => []
  | (_, value) :: rest => value.widths ++ entriesWidths rest

def valuesWidths : List MetaValue → List Float
  | [] => []
  | value :: rest => value.widths ++ valuesWidths rest

end

def Document.widths (document : Document) : List Float :=
  entriesWidths document.metadata ++ blocksWidths document.blocks

/-! ## The widths are the doubles -/

open Json (doubles itemsDoubles membersDoubles)

@[simp]
theorem doubles_tagged (name : String) (content : Json) :
    (tagged name content).doubles = content.doubles := by
  simp [tagged, doubles, membersDoubles]

@[simp]
theorem Attr.doubles_toJson (attr : Attr) : attr.toJson.doubles = [] := by
  have hnone {α : Type} (write : α → Json) (h : ∀ x, (write x).doubles = []) (xs : List α) :
      itemsDoubles (xs.map write) = [] := by
    induction xs with
    | nil => rfl
    | cons x xs ih => rw [List.map_cons, itemsDoubles, h, ih, List.nil_append]
  simp [toJson, doubles, itemsDoubles, hnone Json.str fun _ => rfl,
    hnone (fun pair : String × String => Json.arr [.str pair.1, .str pair.2]) fun _ => rfl]

@[simp]
theorem Target.doubles_toJson (target : Target) : target.toJson.doubles = [] := rfl

@[simp]
theorem QuoteType.doubles_toJson (quote : QuoteType) : quote.toJson.doubles = [] := by
  cases quote <;> rfl

@[simp]
theorem MathType.doubles_toJson (type : MathType) : type.toJson.doubles = [] := by
  cases type <;> rfl

@[simp]
theorem CitationMode.doubles_toJson (mode : CitationMode) : mode.toJson.doubles = [] := by
  cases mode <;> rfl

@[simp]
theorem ListAttributes.doubles_toJson (attributes : ListAttributes) :
    attributes.toJson.doubles = [] := by
  obtain ⟨_, style, delim⟩ := attributes
  cases style <;> cases delim <;> rfl

@[simp]
theorem Alignment.doubles_toJson (alignment : Alignment) : alignment.toJson.doubles = [] := rfl

@[simp]
theorem ColSpec.doubles_toJson (spec : ColSpec) : spec.toJson.doubles = spec.widths := by
  cases spec with
  | mk alignment width => cases width <;> rfl

theorem itemsDoubles_columns (columns : List ColSpec) :
    itemsDoubles (columns.map ColSpec.toJson) = columns.flatMap ColSpec.widths := by
  induction columns with
  | nil => rfl
  | cons spec rest ih =>
      rw [List.map_cons, itemsDoubles, ih, ColSpec.doubles_toJson, List.flatMap_cons]

mutual

theorem Inline.doubles_toJson : ∀ inline : Inline, inline.toJson.doubles = inline.widths
  | .str _ | .space | .softBreak | .lineBreak | .rawInline _ _ => rfl
  | .math _ _ | .code _ _ => by simp [Inline.toJson, Inline.widths, doubles, itemsDoubles]
  | .emph content | .underline content | .strong content | .strikeout content
  | .superscript content | .subscript content | .smallCaps content => by
      simp [Inline.toJson, Inline.widths, doubles, doubles_inlines content]
  | .quoted _ content | .span _ content | .link _ content _ | .image _ content _ => by
      simp [Inline.toJson, Inline.widths, doubles, itemsDoubles, doubles_inlines content]
  | .cite citations content => by
      simp [Inline.toJson, Inline.widths, doubles, itemsDoubles, doubles_citations citations,
        doubles_inlines content]
  | .note content => by simp [Inline.toJson, Inline.widths, doubles, doubles_blocks content]

theorem doubles_inlines :
    ∀ inlines : List Inline, itemsDoubles (inlinesToJson inlines) = inlinesWidths inlines
  | [] => rfl
  | inline :: rest => by
      rw [inlinesToJson, itemsDoubles, inline.doubles_toJson, doubles_inlines rest, inlinesWidths]

theorem Citation.doubles_toJson : ∀ citation : Citation, citation.toJson.doubles = citation.widths
  | ⟨_, before, after, _, _, _⟩ => by
      simp [Citation.toJson, Citation.widths, doubles, membersDoubles, doubles_inlines before,
        doubles_inlines after]

theorem doubles_citations : ∀ citations : List Citation,
    itemsDoubles (citationsToJson citations) = citationsWidths citations
  | [] => rfl
  | citation :: rest => by
      rw [citationsToJson, itemsDoubles, citation.doubles_toJson, doubles_citations rest,
        citationsWidths]

theorem doubles_lines :
    ∀ lines : List (List Inline), itemsDoubles (linesToJson lines) = linesWidths lines
  | [] => rfl
  | line :: rest => by
      rw [linesToJson, itemsDoubles, doubles, doubles_inlines line, doubles_lines rest, linesWidths]

theorem Block.doubles_toJson : ∀ block : Block, block.toJson.doubles = block.widths
  | .rawBlock _ _ | .horizontalRule => rfl
  | .codeBlock _ _ => by simp [Block.toJson, Block.widths, doubles, itemsDoubles]
  | .plain content | .para content => by
      simp [Block.toJson, Block.widths, doubles, doubles_inlines content]
  | .header _ _ content => by
      simp [Block.toJson, Block.widths, doubles, itemsDoubles, doubles_inlines content]
  | .lineBlock lines => by simp [Block.toJson, Block.widths, doubles, doubles_lines lines]
  | .blockQuote content => by simp [Block.toJson, Block.widths, doubles, doubles_blocks content]
  | .div _ content => by
      simp [Block.toJson, Block.widths, doubles, itemsDoubles, doubles_blocks content]
  | .orderedList _ items => by
      simp [Block.toJson, Block.widths, doubles, itemsDoubles, doubles_items items]
  | .bulletList items => by simp [Block.toJson, Block.widths, doubles, doubles_items items]
  | .definitionList items => by
      simp [Block.toJson, Block.widths, doubles, doubles_definitions items]
  | .table table => by simp [Block.toJson, Block.widths, table.doubles_toJson]
  | .figure _ caption content => by
      simp [Block.toJson, Block.widths, doubles, itemsDoubles, caption.doubles_toJson,
        doubles_blocks content]

theorem doubles_blocks :
    ∀ blocks : List Block, itemsDoubles (blocksToJson blocks) = blocksWidths blocks
  | [] => rfl
  | block :: rest => by
      rw [blocksToJson, itemsDoubles, block.doubles_toJson, doubles_blocks rest, blocksWidths]

theorem doubles_items :
    ∀ items : List (List Block), itemsDoubles (itemsToJson items) = itemsWidths items
  | [] => rfl
  | item :: rest => by
      rw [itemsToJson, itemsDoubles, doubles, doubles_blocks item, doubles_items rest, itemsWidths]

theorem Definition.doubles_toJson :
    ∀ definition : Definition, definition.toJson.doubles = definition.widths
  | ⟨term, definitions⟩ => by
      simp [Definition.toJson, Definition.widths, doubles, itemsDoubles, doubles_inlines term,
        doubles_items definitions]

theorem doubles_definitions : ∀ definitions : List Definition,
    itemsDoubles (definitionsToJson definitions) = definitionsWidths definitions
  | [] => rfl
  | definition :: rest => by
      rw [definitionsToJson, itemsDoubles, definition.doubles_toJson, doubles_definitions rest,
        definitionsWidths]

theorem Caption.doubles_toJson : ∀ caption : Caption, caption.toJson.doubles = caption.widths
  | ⟨none, body⟩ => by
      simp [Caption.toJson, Caption.widths, doubles, itemsDoubles, doubles_blocks body]
  | ⟨some short, body⟩ => by
      simp [Caption.toJson, Caption.widths, doubles, itemsDoubles, doubles_inlines short,
        doubles_blocks body]

theorem Table.doubles_toJson : ∀ table : Table, table.toJson.doubles = table.widths
  | ⟨_, caption, columns, head, bodies, foot⟩ => by
      simp [Table.toJson, Table.widths, doubles, itemsDoubles, caption.doubles_toJson,
        itemsDoubles_columns columns, head.doubles_toJson, doubles_bodies bodies,
        foot.doubles_toJson]

theorem TableSection.doubles_toJson :
    ∀ part : TableSection, part.toJson.doubles = part.widths
  | ⟨_, rows⟩ => by
      simp [TableSection.toJson, TableSection.widths, doubles, itemsDoubles, doubles_rows rows]

theorem TableBody.doubles_toJson : ∀ body : TableBody, body.toJson.doubles = body.widths
  | ⟨_, _, headRows, rows⟩ => by
      simp [TableBody.toJson, TableBody.widths, doubles, itemsDoubles, doubles_rows headRows,
        doubles_rows rows]

theorem doubles_bodies :
    ∀ bodies : List TableBody, itemsDoubles (bodiesToJson bodies) = bodiesWidths bodies
  | [] => rfl
  | body :: rest => by
      rw [bodiesToJson, itemsDoubles, body.doubles_toJson, doubles_bodies rest, bodiesWidths]

theorem Row.doubles_toJson : ∀ row : Row, row.toJson.doubles = row.widths
  | ⟨_, cells⟩ => by simp [Row.toJson, Row.widths, doubles, itemsDoubles, doubles_cells cells]

theorem doubles_rows : ∀ rows : List Row, itemsDoubles (rowsToJson rows) = rowsWidths rows
  | [] => rfl
  | row :: rest => by
      rw [rowsToJson, itemsDoubles, row.doubles_toJson, doubles_rows rest, rowsWidths]

theorem Cell.doubles_toJson : ∀ cell : Cell, cell.toJson.doubles = cell.widths
  | ⟨_, _, _, _, content⟩ => by
      simp [Cell.toJson, Cell.widths, doubles, itemsDoubles, doubles_blocks content]

theorem doubles_cells : ∀ cells : List Cell, itemsDoubles (cellsToJson cells) = cellsWidths cells
  | [] => rfl
  | cell :: rest => by
      rw [cellsToJson, itemsDoubles, cell.doubles_toJson, doubles_cells rest, cellsWidths]

end

mutual

theorem MetaValue.doubles_toJson : ∀ value : MetaValue, value.toJson.doubles = value.widths
  | .map entries => by simp [MetaValue.toJson, MetaValue.widths, doubles, doubles_entries entries]
  | .list items => by simp [MetaValue.toJson, MetaValue.widths, doubles, doubles_values items]
  | .bool _ | .string _ => rfl
  | .inlines content => by
      simp [MetaValue.toJson, MetaValue.widths, doubles, doubles_inlines content]
  | .blocks content => by simp [MetaValue.toJson, MetaValue.widths, doubles, doubles_blocks content]

theorem doubles_entries : ∀ entries : List (String × MetaValue),
    membersDoubles (entriesToJson entries) = entriesWidths entries
  | [] => rfl
  | (_, value) :: rest => by
      rw [entriesToJson, membersDoubles, value.doubles_toJson, doubles_entries rest, entriesWidths]

theorem doubles_values :
    ∀ values : List MetaValue, itemsDoubles (valuesToJson values) = valuesWidths values
  | [] => rfl
  | value :: rest => by
      rw [valuesToJson, itemsDoubles, value.doubles_toJson, doubles_values rest, valuesWidths]

end

theorem Document.doubles_toJson (document : Document) :
    document.toJson.doubles = document.widths := by
  simp [toJson, widths, ApiVersion.toJson, doubles, itemsDoubles, membersDoubles,
    doubles_entries document.metadata, doubles_blocks document.blocks]

end Pandoc

end RichDoc
