/-!
# The Pandoc document model

What a document is turned into: Pandoc's inlines and blocks, with the
records that occur in them. A few shapes that the conversion never
produces (line blocks, columns of unset width, inner head rows of a table
body) belong to the model all the same.
-/

namespace RichDoc.Pandoc

/-- Identifier, classes and key-value pairs of an element. -/
structure Attr where
  id : String := ""
  classes : List String := []
  pairs : List (String × String) := []
deriving DecidableEq, Repr, Inhabited

namespace Attr

def isEmpty (attr : Attr) : Bool :=
  attr.id.isEmpty && attr.classes.isEmpty && attr.pairs.isEmpty

/-- The element with one more class, in front of the others. -/
def withClass (attr : Attr) (name : String) : Attr :=
  { attr with classes := name :: attr.classes }

end Attr

/-- Where a link or an image points. -/
structure Target where
  url : String
  title : String
deriving DecidableEq, Repr, Inhabited

inductive QuoteType where
  | singleQuote
  | doubleQuote
deriving DecidableEq, Repr

inductive MathType where
  | displayMath
  | inlineMath
deriving DecidableEq, Repr

inductive CitationMode where
  | authorInText
  | suppressAuthor
  | normalCitation
deriving DecidableEq, Repr

inductive ListNumberStyle where
  | defaultStyle
  | exampleStyle
  | decimal
  | lowerRoman
  | upperRoman
  | lowerAlpha
  | upperAlpha
deriving DecidableEq, Repr

inductive ListNumberDelim where
  | defaultDelim
  | period
  | oneParen
  | twoParens
deriving DecidableEq, Repr

/-- First number, style and delimiter of an ordered list. -/
structure ListAttributes where
  start : Int := 1
  style : ListNumberStyle := .defaultStyle
  delim : ListNumberDelim := .defaultDelim
deriving DecidableEq, Repr

inductive Alignment where
  | left
  | right
  | center
  | default
deriving DecidableEq, Repr

inductive ColWidth where
  | fraction (width : Float)
  | unset
deriving Repr

structure ColSpec where
  alignment : Alignment
  width : ColWidth
deriving Repr

mutual

inductive Inline where
  | str (text : String)
  | emph (content : List Inline)
  | underline (content : List Inline)
  | strong (content : List Inline)
  | strikeout (content : List Inline)
  | superscript (content : List Inline)
  | subscript (content : List Inline)
  | smallCaps (content : List Inline)
  | quoted (quote : QuoteType) (content : List Inline)
  | cite (citations : List Citation) (content : List Inline)
  | code (attr : Attr) (text : String)
  | space
  | softBreak
  | lineBreak
  | math (type : MathType) (text : String)
  | rawInline (format : String) (text : String)
  | link (attr : Attr) (content : List Inline) (target : Target)
  | image (attr : Attr) (alt : List Inline) (target : Target)
  | note (content : List Block)
  | span (attr : Attr) (content : List Inline)

structure Citation where
  id : String
  before : List Inline
  after : List Inline
  mode : CitationMode
  noteNumber : Int
  hash : Int

inductive Block where
  | plain (content : List Inline)
  | para (content : List Inline)
  | lineBlock (lines : List (List Inline))
  | codeBlock (attr : Attr) (text : String)
  | rawBlock (format : String) (text : String)
  | blockQuote (content : List Block)
  | orderedList (attributes : ListAttributes) (items : List (List Block))
  | bulletList (items : List (List Block))
  | definitionList (items : List Definition)
  | header (level : Int) (attr : Attr) (content : List Inline)
  | horizontalRule
  | table (table : Table)
  | figure (attr : Attr) (caption : Caption) (content : List Block)
  | div (attr : Attr) (content : List Block)

/-- A term with its definitions. -/
structure Definition where
  term : List Inline
  definitions : List (List Block)

structure Caption where
  short : Option (List Inline)
  body : List Block

structure Table where
  attr : Attr
  caption : Caption
  columns : List ColSpec
  head : TableSection
  bodies : List TableBody
  foot : TableSection

/-- The head or the foot of a table. -/
structure TableSection where
  attr : Attr
  rows : List Row

structure TableBody where
  attr : Attr
  rowHeadColumns : Int
  headRows : List Row
  rows : List Row

structure Row where
  attr : Attr
  cells : List Cell

structure Cell where
  attr : Attr
  alignment : Alignment
  rowSpan : Int
  colSpan : Int
  content : List Block

end

instance : Inhabited Inline := ⟨.space⟩
instance : Inhabited Block := ⟨.horizontalRule⟩

/-- No caption at all. -/
def Caption.empty : Caption := ⟨none, []⟩

/-- A caption of running text; without text there is none. -/
def Caption.ofInlines (content : List Inline) : Caption :=
  if content.isEmpty then .empty else ⟨none, [.plain content]⟩

inductive MetaValue where
  | map (entries : List (String × MetaValue))
  | list (items : List MetaValue)
  | bool (value : Bool)
  | string (text : String)
  | inlines (content : List Inline)
  | blocks (content : List Block)

/-- Major, minor and patch number of the document model's version. -/
structure ApiVersion where
  major : Nat := 1
  minor : Nat := 23
  patch : Nat := 1
deriving DecidableEq, Repr

/-- A whole document; its metadata is sorted by key. -/
structure Document where
  apiVersion : ApiVersion
  metadata : List (String × MetaValue)
  blocks : List Block

end RichDoc.Pandoc
