import RichDoc.Json.Printer
import RichDoc.Pandoc.Ast

/-!
# The document model as JSON

An element with alternatives is an object with a tag `t` and, unless the
alternative has no content, a member `c`: the content itself when it has
one part and a list of the parts when it has more. Records are lists of
their parts in order; citations and the document itself name theirs.
-/

namespace RichDoc.Pandoc

/-- A tag without content. -/
def tag (name : String) : Json := .obj [("t", .str name)]

/-- A tag with its content. -/
def tagged (name : String) (content : Json) : Json := .obj [("t", .str name), ("c", content)]

/-! ## Records without inlines or blocks -/

def Attr.toJson (attr : Attr) : Json :=
  .arr [.str attr.id, .arr (attr.classes.map .str),
    .arr (attr.pairs.map fun (key, value) => .arr [.str key, .str value])]

def Target.toJson (target : Target) : Json := .arr [.str target.url, .str target.title]

def QuoteType.toJson : QuoteType → Json
  | .singleQuote => tag "SingleQuote"
  | .doubleQuote => tag "DoubleQuote"

def MathType.toJson : MathType → Json
  | .displayMath => tag "DisplayMath"
  | .inlineMath => tag "InlineMath"

def CitationMode.toJson : CitationMode → Json
  | .authorInText => tag "AuthorInText"
  | .suppressAuthor => tag "SuppressAuthor"
  | .normalCitation => tag "NormalCitation"

def ListNumberStyle.toJson : ListNumberStyle → Json
  | .defaultStyle => tag "DefaultStyle"
  | .exampleStyle => tag "Example"
  | .decimal => tag "Decimal"
  | .lowerRoman => tag "LowerRoman"
  | .upperRoman => tag "UpperRoman"
  | .lowerAlpha => tag "LowerAlpha"
  | .upperAlpha => tag "UpperAlpha"

def ListNumberDelim.toJson : ListNumberDelim → Json
  | .defaultDelim => tag "DefaultDelim"
  | .period => tag "Period"
  | .oneParen => tag "OneParen"
  | .twoParens => tag "TwoParens"

def ListAttributes.toJson (attributes : ListAttributes) : Json :=
  .arr [.int attributes.start, attributes.style.toJson, attributes.delim.toJson]

def Alignment.name : Alignment → String
  | .left => "AlignLeft"
  | .right => "AlignRight"
  | .center => "AlignCenter"
  | .default => "AlignDefault"

def Alignment.toJson (alignment : Alignment) : Json := tag alignment.name

def ColWidth.toJson : ColWidth → Json
  | .fraction width => tagged "ColWidth" (.float width)
  | .unset => tag "ColWidthDefault"

def ColSpec.toJson (spec : ColSpec) : Json := .arr [spec.alignment.toJson, spec.width.toJson]

def ApiVersion.toJson (version : ApiVersion) : Json :=
  .arr [.int version.major, .int version.minor, .int version.patch]

/-! ## Inlines and blocks -/

mutual

def Inline.toJson : Inline → Json
  | .str text => tagged "Str" (.str text)
  | .emph content => tagged "Emph" (.arr (inlinesToJson content))
  | .underline content => tagged "Underline" (.arr (inlinesToJson content))
  | .strong content => tagged "Strong" (.arr (inlinesToJson content))
  | .strikeout content => tagged "Strikeout" (.arr (inlinesToJson content))
  | .superscript content => tagged "Superscript" (.arr (inlinesToJson content))
  | .subscript content => tagged "Subscript" (.arr (inlinesToJson content))
  | .smallCaps content => tagged "SmallCaps" (.arr (inlinesToJson content))
  | .quoted quote content => tagged "Quoted" (.arr [quote.toJson, .arr (inlinesToJson content)])
  | .cite citations content =>
    tagged "Cite" (.arr [.arr (citationsToJson citations), .arr (inlinesToJson content)])
  | .code attr text => tagged "Code" (.arr [attr.toJson, .str text])
  | .space => tag "Space"
  | .softBreak => tag "SoftBreak"
  | .lineBreak => tag "LineBreak"
  | .math type text => tagged "Math" (.arr [type.toJson, .str text])
  | .rawInline format text => tagged "RawInline" (.arr [.str format, .str text])
  | .link attr content target =>
    tagged "Link" (.arr [attr.toJson, .arr (inlinesToJson content), target.toJson])
  | .image attr alt target =>
    tagged "Image" (.arr [attr.toJson, .arr (inlinesToJson alt), target.toJson])
  | .note content => tagged "Note" (.arr (blocksToJson content))
  | .span attr content => tagged "Span" (.arr [attr.toJson, .arr (inlinesToJson content)])

def inlinesToJson : List Inline → List Json
  | [] => []
  | inline :: rest => inline.toJson :: inlinesToJson rest

def Citation.toJson : Citation → Json
  | ⟨id, before, after, mode, noteNumber, hash⟩ =>
    .obj [("citationId", .str id), ("citationPrefix", .arr (inlinesToJson before)),
      ("citationSuffix", .arr (inlinesToJson after)), ("citationMode", mode.toJson),
      ("citationNoteNum", .int noteNumber), ("citationHash", .int hash)]

def citationsToJson : List Citation → List Json
  | [] => []
  | citation :: rest => citation.toJson :: citationsToJson rest

def linesToJson : List (List Inline) → List Json
  | [] => []
  | line :: rest => .arr (inlinesToJson line) :: linesToJson rest

def Block.toJson : Block → Json
  | .plain content => tagged "Plain" (.arr (inlinesToJson content))
  | .para content => tagged "Para" (.arr (inlinesToJson content))
  | .lineBlock lines => tagged "LineBlock" (.arr (linesToJson lines))
  | .codeBlock attr text => tagged "CodeBlock" (.arr [attr.toJson, .str text])
  | .rawBlock format text => tagged "RawBlock" (.arr [.str format, .str text])
  | .blockQuote content => tagged "BlockQuote" (.arr (blocksToJson content))
  | .orderedList attributes items =>
    tagged "OrderedList" (.arr [attributes.toJson, .arr (itemsToJson items)])
  | .bulletList items => tagged "BulletList" (.arr (itemsToJson items))
  | .definitionList items => tagged "DefinitionList" (.arr (definitionsToJson items))
  | .header level attr content =>
    tagged "Header" (.arr [.int level, attr.toJson, .arr (inlinesToJson content)])
  | .horizontalRule => tag "HorizontalRule"
  | .table table => tagged "Table" table.toJson
  | .figure attr caption content =>
    tagged "Figure" (.arr [attr.toJson, caption.toJson, .arr (blocksToJson content)])
  | .div attr content => tagged "Div" (.arr [attr.toJson, .arr (blocksToJson content)])

def blocksToJson : List Block → List Json
  | [] => []
  | block :: rest => block.toJson :: blocksToJson rest

def itemsToJson : List (List Block) → List Json
  | [] => []
  | item :: rest => .arr (blocksToJson item) :: itemsToJson rest

def Definition.toJson : Definition → Json
  | ⟨term, definitions⟩ => .arr [.arr (inlinesToJson term), .arr (itemsToJson definitions)]

def definitionsToJson : List Definition → List Json
  | [] => []
  | definition :: rest => definition.toJson :: definitionsToJson rest

def Caption.toJson : Caption → Json
  | ⟨none, body⟩ => .arr [.null, .arr (blocksToJson body)]
  | ⟨some short, body⟩ => .arr [.arr (inlinesToJson short), .arr (blocksToJson body)]

def Table.toJson : Table → Json
  | ⟨attr, caption, columns, head, bodies, foot⟩ =>
    .arr [attr.toJson, caption.toJson, .arr (columns.map ColSpec.toJson), head.toJson,
      .arr (bodiesToJson bodies), foot.toJson]

def TableSection.toJson : TableSection → Json
  | ⟨attr, rows⟩ => .arr [attr.toJson, .arr (rowsToJson rows)]

def TableBody.toJson : TableBody → Json
  | ⟨attr, rowHeadColumns, headRows, rows⟩ =>
    .arr [attr.toJson, .int rowHeadColumns, .arr (rowsToJson headRows), .arr (rowsToJson rows)]

def bodiesToJson : List TableBody → List Json
  | [] => []
  | body :: rest => body.toJson :: bodiesToJson rest

def Row.toJson : Row → Json
  | ⟨attr, cells⟩ => .arr [attr.toJson, .arr (cellsToJson cells)]

def rowsToJson : List Row → List Json
  | [] => []
  | row :: rest => row.toJson :: rowsToJson rest

def Cell.toJson : Cell → Json
  | ⟨attr, alignment, rowSpan, colSpan, content⟩ =>
    .arr [attr.toJson, alignment.toJson, .int rowSpan, .int colSpan, .arr (blocksToJson content)]

def cellsToJson : List Cell → List Json
  | [] => []
  | cell :: rest => cell.toJson :: cellsToJson rest

end

/-! ## Documents -/

mutual

def MetaValue.toJson : MetaValue → Json
  | .map entries => tagged "MetaMap" (.obj (entriesToJson entries))
  | .list items => tagged "MetaList" (.arr (valuesToJson items))
  | .bool value => tagged "MetaBool" (.bool value)
  | .string text => tagged "MetaString" (.str text)
  | .inlines content => tagged "MetaInlines" (.arr (inlinesToJson content))
  | .blocks content => tagged "MetaBlocks" (.arr (blocksToJson content))

def entriesToJson : List (String × MetaValue) → List (String × Json)
  | [] => []
  | (key, value) :: rest => (key, value.toJson) :: entriesToJson rest

def valuesToJson : List MetaValue → List Json
  | [] => []
  | value :: rest => value.toJson :: valuesToJson rest

end

def Document.toJson (document : Document) : Json :=
  .obj [("pandoc-api-version", document.apiVersion.toJson),
    ("meta", .obj (entriesToJson document.metadata)),
    ("blocks", .arr (blocksToJson document.blocks))]

/-- The text of a document: compact, or indented by a number of spaces. -/
def Document.write (indent : Option Nat) (document : Document) : String :=
  match indent with
  | none => document.toJson.compact
  | some width => document.toJson.indented width

end RichDoc.Pandoc
