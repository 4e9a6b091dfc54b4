import RichDoc.Document.Node
import RichDoc.Json.Printer
import RichDoc.Json.Reader

/-!
# Documents as JSON

A node is written as an object; empty content, empty marks and an absent
text are left out, attributes are always there. It is read from an object
whose fields may come in any order, `children` being another name for
`content`, or from a list of the fields in their written order with
trailing ones left out. Fields of other names are skipped.
-/

namespace RichDoc

open Json (Reader)

/-! ## Writing -/

def Mark.toJson (mark : Mark) : Json :=
  .obj [("type", .str mark.type), ("attrs", .obj mark.attrs)]

/-- A field that is left out when its list is empty. -/
def Node.listField (name : String) (items : List Json) : List (String × Json) :=
  if items.isEmpty then [] else [(name, .arr items)]

namespace Node

mutual

def toJson : Node → Json
  | ⟨type, attrs, content, marks, text⟩ =>
    .obj ([("type", .str type), ("attrs", .obj attrs)]
      ++ listField "content" (toJsons content)
      ++ listField "marks" (marks.map Mark.toJson)
      ++ (text.map fun t => ("text", Json.str t)).toList)

def toJsons : List Node → List Json
  | [] => []
  | node :: rest => node.toJson :: toJsons rest

end

/-- The text of a node. -/
def write (node : Node) : String := node.toJson.compact

end Node

/-! ## Reading -/

namespace Mark

/-- The fields of a mark as far as they have been read. -/
structure Fields where
  type : Option String := none
  attrs : Option Attributes := none

def shape : String := "struct Mark"

def readMember (depth : Nat) (key : String) (fields : Fields) : Reader Fields := do
  match key with
  | "type" => return { fields with type := ← Json.field key fields.type Json.text }
  | "attrs" =>
    return { fields with attrs := ← Json.field key fields.attrs (Json.attributes depth) }
  | _ => Json.skipField; return fields

def forms (depth : Nat) : Json.RecordForms Mark where
  listed := do
    let type ← Json.leading (shape ++ " with 2 elements") Json.text
    let attrs ← Json.trailing [] (Json.attributes depth)
    return { type, attrs }
  named := do
    let fields ← Json.members Json.string (readMember depth) {}
    let type ← Json.required "type" fields.type
    return { type, attrs := fields.attrs.getD [] }

def read (depth : Nat) : Reader Mark := Json.record shape (Json.nested depth forms)

end Mark

namespace Node

/-- The fields of a node as far as they have been read. -/
structure Fields where
  type : Option String := none
  attrs : Option Attributes := none
  content : Option (List Node) := none
  marks : Option (List Mark) := none
  text : Option (Option String) := none

def shape : String := "struct Node"

def readMarks (depth : Nat) : Reader (List Mark) := Json.listOf (Json.nested depth Mark.read)

def readText : Reader (Option String) := Json.optional Json.text

def readMember (depth : Nat) (children : Reader (List Node)) (key : String) (fields : Fields) :
    Reader Fields := do
  match key with
  | "type" => return { fields with type := ← Json.field "type" fields.type Json.text }
  | "attrs" =>
    return { fields with attrs := ← Json.field "attrs" fields.attrs (Json.attributes depth) }
  | "content" | "children" =>
    return { fields with content := ← Json.field "content" fields.content children }
  | "marks" => return { fields with marks := ← Json.field "marks" fields.marks (readMarks depth) }
  | "text" => return { fields with text := ← Json.field "text" fields.text readText }
  | _ => Json.skipField; return fields

/-- The two forms of a node, given the reader of a child. -/
def forms (depth : Nat) (child : Option (Reader Node)) : Json.RecordForms Node where
  listed := do
    let type ← Json.leading (shape ++ " with 5 elements") Json.text
    let attrs ← Json.trailing [] (Json.attributes depth)
    let content ← Json.trailing [] (Json.listOf child)
    let marks ← Json.trailing [] (readMarks depth)
    let text ← Json.trailing none readText
    return { type, attrs, content, marks, text }
  named := do
    let fields ← Json.members Json.string (readMember depth (Json.listOf child)) {}
    let type ← Json.required "type" fields.type
    return {
      type
      attrs := fields.attrs.getD []
      content := fields.content.getD []
      marks := fields.marks.getD []
      text := fields.text.getD none }

/-- A node with at most the given number of levels of brackets. It takes
one of them, and so does the list of its children. -/
def read : Nat → Reader Node
  | 0 => Json.record shape none
  | 1 => Json.record shape (some (forms 0 none))
  | depth + 2 => Json.record shape (some (forms (depth + 1) (some (read depth))))

/-- The node that is written in a text. -/
def ofText (text : String) : Except Json.Error Node := (read Json.maxNesting).run text

end Node

end RichDoc
