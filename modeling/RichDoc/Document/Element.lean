import RichDoc.Document.Attributes
import RichDoc.Pandoc.Ast

/-!
# Elements from attributes

The identifier, classes and pairs that an element of the output takes
from the conventional attributes `id`, `classes` and `attributes`.
-/

namespace RichDoc.Attributes

def element (attrs : Attributes) : Pandoc.Attr where
  id := attrs.string "id"
  classes := attrs.classes
  pairs := attrs.pairs

/-- As `element`, with the attribute `language` as the first class where it is given. -/
def codeElement (attrs : Attributes) : Pandoc.Attr :=
  match attrs.string? "language" with
  | some language => attrs.element.withClass language
  | none => attrs.element

end RichDoc.Attributes
