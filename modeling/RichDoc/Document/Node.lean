import RichDoc.Json.Value
import RichDoc.Document.Kind

/-!
# Nodes and marks

The document is a tree of nodes. A node names its type, carries free-form
attributes and holds child nodes; a leaf of running text holds the text
itself and the marks that apply to it.
-/

namespace RichDoc

/-- A formatting annotation on a leaf of running text. -/
structure Mark where
  type : String
  attrs : Attributes := []
deriving Repr, Inhabited, BEq

structure Node where
  type : String
  attrs : Attributes := []
  content : List Node := []
  marks : List Mark := []
  text : Option String := none
deriving Repr, Inhabited, BEq

namespace Node

mutual

/-- The text of the node and of all nodes below it, in order. -/
def textContent : Node → String
  | ⟨_, _, content, _, text⟩ => text.getD "" ++ textContents content

def textContents : List Node → String
  | [] => ""
  | node :: rest => node.textContent ++ textContents rest

end

/-- The node's type, if it is one of the vocabulary. -/
def kind? (node : Node) : Option NodeKind := NodeKind.ofName? node.type

end Node

end RichDoc
