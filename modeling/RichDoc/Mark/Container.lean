import RichDoc.Document.Element
import RichDoc.Document.Node
import RichDoc.Mark.Reference

/-!
# What marks turn into

Every mark turns into a container around the inlines that carry it. The
known mark types have containers of their own; any other mark becomes a
span that carries the mark's name as a custom style. Code and math hold
text and no inlines: text under such a mark becomes one leaf, and where
inlines are put into the container all the same, only their text is kept.
-/

namespace RichDoc

open Pandoc (Inline Attr Target QuoteType MathType)

/-- The key under which a span carries the name of a custom style. -/
def customStyleKey : String := "custom-style"

/-- The mark types known by name, and one for all the others. -/
inductive MarkKind where
  | emphasis
  | strong
  | underline
  | strikethrough
  | superscript
  | subscript
  | smallCaps
  | singleQuote
  | doubleQuote
  | code
  | math
  | link
  | span
  | citation
  | customStyle
deriving DecidableEq, Repr

namespace MarkKind

def ofName : String → MarkKind
  | "emphasis" => emphasis
  | "strong" => strong
  | "underline" => underline
  | "strikethrough" => strikethrough
  | "superscript" => superscript
  | "subscript" => subscript
  | "smallCaps" => smallCaps
  | "singleQuote" => singleQuote
  | "doubleQuote" => doubleQuote
  | "code" => code
  | "math" => math
  | "link" => link
  | "span" => span
  | "citation" => citation
  | _ => customStyle

/-- Text under a mark of this kind is a single leaf. -/
def isOpaque : MarkKind → Bool
  | code | math => true
  | _ => false

end MarkKind

/-- A container with its attributes, before anything is put into it. -/
inductive Container where
  | emph
  | underline
  | strong
  | strikeout
  | superscript
  | subscript
  | smallCaps
  | quoted (quote : QuoteType)
  | code (attr : Attr)
  | math (type : MathType)
  | link (attr : Attr) (target : Target)
  | span (attr : Attr)
  | cite (references : List Reference)

namespace Container

/-- The container for a mark of the given kind. -/
def ofMark (kind : MarkKind) (mark : Mark) : Container :=
  match kind with
  | .emphasis => .emph
  | .strong => .strong
  | .underline => .underline
  | .strikethrough => .strikeout
  | .superscript => .superscript
  | .subscript => .subscript
  | .smallCaps => .smallCaps
  | .singleQuote => .quoted .singleQuote
  | .doubleQuote => .quoted .doubleQuote
  | .code => .code mark.attrs.codeElement
  | .math =>
    .math (if (mark.attrs.boolean? "display").getD false then .displayMath else .inlineMath)
  | .link => .link mark.attrs.element ⟨mark.attrs.string "href", mark.attrs.string "title"⟩
  | .span => .span mark.attrs.element
  | .citation => .cite (Reference.ofCitation mark.attrs)
  | .customStyle =>
    .span { id := mark.attrs.string "id", pairs := [(customStyleKey, mark.type)] }

/-- The tag of the inline that the container becomes. -/
def tag : Container → String
  | .emph => "Emph"
  | .underline => "Underline"
  | .strong => "Strong"
  | .strikeout => "Strikeout"
  | .superscript => "Superscript"
  | .subscript => "Subscript"
  | .smallCaps => "SmallCaps"
  | .quoted _ => "Quoted"
  | .code _ => "Code"
  | .math _ => "Math"
  | .link _ _ => "Link"
  | .span _ => "Span"
  | .cite _ => "Cite"

/-- A span that carries the name of a custom style and nothing else. -/
def isCustomStyle : Container → Bool
  | .span attr =>
    attr.id.isEmpty && attr.classes.isEmpty && attr.pairs.map Prod.fst == [customStyleKey]
  | _ => false

/-- The container is a citation, which takes a note number. -/
def isCitation : Container → Bool
  | .cite _ => true
  | _ => false

/-- The leaf of a text under a code or math mark. -/
def leaf? (text : String) : Container → Option Inline
  | .code attr => some (.code attr text)
  | .math type => some (.math type text)
  | _ => none

end Container

/-! ## Putting inlines into containers -/

namespace Pandoc

mutual

/-- The text of an inline, with a space or a line feed for a break. Raw
text, images and notes have none. -/
def Inline.plainText : Inline → String
  | .str text | .code _ text | .math _ text => text
  | .space => " "
  | .softBreak | .lineBreak => "\n"
  | .emph content | .underline content | .strong content | .strikeout content
  | .superscript content | .subscript content | .smallCaps content | .quoted _ content
  | .cite _ content | .link _ content _ | .span _ content => plainTexts content
  | .rawInline _ _ | .image _ _ _ | .note _ => ""

def plainTexts : List Inline → String
  | [] => ""
  | inline :: rest => inline.plainText ++ plainTexts rest

end

end Pandoc

/-- The container around its content; only a citation looks at the note number. -/
def Container.wrap (container : Container) (content : List Inline) (noteNumber : Int) : Inline :=
  match container with
  | .emph => .emph content
  | .underline => .underline content
  | .strong => .strong content
  | .strikeout => .strikeout content
  | .superscript => .superscript content
  | .subscript => .subscript content
  | .smallCaps => .smallCaps content
  | .quoted quote => .quoted quote content
  | .code attr => .code attr (Pandoc.plainTexts content)
  | .math type => .math type (Pandoc.plainTexts content)
  | .link attr target => .link attr content target
  | .span attr => .span attr content
  | .cite references => .cite (references.map (·.toCitation noteNumber)) content

end RichDoc
