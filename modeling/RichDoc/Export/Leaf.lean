import RichDoc.Document.Element
import RichDoc.Document.Node
import RichDoc.Export.Settings
import RichDoc.Pandoc.Words

/-!
# Leaves from nodes

The inlines that a node turns into on its own, without its children:
images, raw text, empty spans and references to an index.
-/

namespace RichDoc

open Pandoc (Inline Attr)

def defaultIndexName : String := "index"

/-- The class of references to an index without a class of its own. -/
def defaultIndexRefClass : String := "index-ref"

/-- The class of the place where an index is put. -/
def indexDivClass : String := "index"

namespace Node

/-- A size of an image: text as it is, or a number in plain layout. -/
def sizePair? (node : Node) (key : String) : Option (String × String) :=
  match node.attrs.string? key with
  | some text => some (key, text)
  | none => (node.attrs.number? key).map fun x => (key, Decimal.Layout.plain.write x)

def image (node : Node) : Inline :=
  let attr := node.attrs.element
  .image { attr with pairs := attr.pairs ++ ["width", "height"].filterMap node.sizePair? }
    (Inline.ofText (node.attrs.string "alt"))
    ⟨node.attrs.string "src", node.attrs.string "title"⟩

/-- The format of raw text. -/
def rawFormat (node : Node) : String := (node.attrs.string? "format").getD "html"

def rawInline (node : Node) : Inline := .rawInline node.rawFormat node.textContent

def emptySpan (node : Node) : Inline := .span node.attrs.element []

/-- The index that a reference or a place for an index belongs to. -/
def indexName (node : Node) : String := (node.attrs.string? "indexName").getD defaultIndexName

/-- A reference to an index: an empty span that says which index it is,
what text it indexes and where it stands. -/
def indexRef (settings : Settings) (node : Node) : Inline :=
  let definition := settings.index? node.indexName
  let indexed := (node.attrs.string? "text").map fun text => ("indexed-text", text)
  let placement := (definition.bind (·.placement)).map fun text => ("index-placement", text)
  .span
    { id := node.attrs.string "id"
      classes := [(definition.bind (·.refClass)).getD defaultIndexRefClass]
      pairs := [("index-name", node.indexName)] ++ indexed.toList ++ placement.toList }
    []

/-- The attributes of the place where an index is put. -/
def indexDivAttr (node : Node) : Attr :=
  let attr := node.attrs.element.withClass indexDivClass
  { attr with pairs := ("index-name", node.indexName) :: attr.pairs }

end Node

end RichDoc
