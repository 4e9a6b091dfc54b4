import RichDoc.Json.Reader
import RichDoc.Pandoc.Written

/-!
# Export settings

What the caller chooses: the version of the document model to declare,
the indexes that the document may refer to, and the layout of the output.
Settings are read from JSON like any other record, and absent ones keep
their defaults.
-/

namespace RichDoc

open Json (Reader)
open Pandoc (ApiVersion)

/-- An index that the document may refer to. -/
structure IndexDefinition where
  name : String
  /-- The class of references to this index, in place of the usual one. -/
  refClass : Option String := none
  /-- Where a reference stands relative to the text it indexes. -/
  placement : Option String := none
deriving DecidableEq, Repr

structure Settings where
  apiVersion : ApiVersion := {}
  indexes : List IndexDefinition := []
  /-- Spaces per level of indentation; without it the output is compact. -/
  indent : Option Nat := none
deriving DecidableEq, Repr

def Settings.index? (settings : Settings) (name : String) : Option IndexDefinition :=
  settings.indexes.find? (·.name == name)

/-! ## Writing -/

/-- A field that is left out when it has no value. -/
def optionalField (name : String) (value : Option String) : List (String × Json) :=
  (value.map fun text => (name, Json.str text)).toList

def IndexDefinition.toJson (definition : IndexDefinition) : Json :=
  .obj ([("name", .str definition.name)] ++ optionalField "ref_class" definition.refClass
    ++ optionalField "placement" definition.placement)

def indentToJson : Option Nat → Json
  | none => .null
  | some width => .int width

def Settings.toJson (settings : Settings) : Json :=
  .obj [("api_version", settings.apiVersion.toJson),
    ("indexes", .arr (settings.indexes.map IndexDefinition.toJson)),
    ("indent", indentToJson settings.indent)]

/-! ## Reading -/

def readText : Reader (Option String) := Json.optional Json.text

/-- The largest number of a version. -/
def maxVersionNumber : Nat := 0xFFFFFFFF

/-- The largest width of an indentation. -/
def maxIndent : Nat := 0xFFFFFFFFFFFFFFFF

def readIndent : Reader (Option Nat) := Json.optional (Json.natural maxIndent "usize")

namespace ApiVersion

def shape : String := "an array of length 3"

def number (before : Nat) : Reader Nat := do
  if ← Json.nextItem (before == 0) then Json.natural maxVersionNumber "u32"
  else throw (.mismatch (.invalidLength before shape))

/-- A version as a list of exactly three numbers. -/
def read (depth : Nat) : Reader ApiVersion := do
  match ← Json.peek with
  | none => throw .truncated
  | some '[' =>
    if depth = 0 then throw .malformed
    Json.advance
    let version := ⟨← number 0, ← number 1, ← number 2⟩
    Json.endOfItems
    return version
  | some c => Json.refuse c shape

end ApiVersion

namespace IndexDefinition

structure Fields where
  name : Option String := none
  refClass : Option (Option String) := none
  placement : Option (Option String) := none

def shape : String := "struct IndexDefinition"

def readMember (key : String) (fields : Fields) : Reader Fields := do
  match key with
  | "name" => return { fields with name := ← Json.field key fields.name Json.text }
  | "ref_class" => return { fields with refClass := ← Json.field key fields.refClass readText }
  | "placement" => return { fields with placement := ← Json.field key fields.placement readText }
  | _ => Json.skipField; return fields

def forms : Json.RecordForms IndexDefinition where
  listed := do
    let name ← Json.leading (shape ++ " with 3 elements") Json.text
    let refClass ← Json.trailing none readText
    let placement ← Json.trailing none readText
    return { name, refClass, placement }
  named := do
    let fields ← Json.members Json.string readMember {}
    let name ← Json.required "name" fields.name
    return { name, refClass := fields.refClass.getD none, placement := fields.placement.getD none }

def read (depth : Nat) : Reader IndexDefinition :=
  Json.record shape (Json.nested depth fun _ => forms)

end IndexDefinition

namespace Settings

structure Fields where
  apiVersion : Option ApiVersion := none
  indexes : Option (List IndexDefinition) := none
  indent : Option (Option Nat) := none

def shape : String := "struct ExportOptions"

def readIndexes (depth : Nat) : Reader (List IndexDefinition) :=
  Json.listOf (Json.nested depth IndexDefinition.read)

def readMember (depth : Nat) (key : String) (fields : Fields) : Reader Fields := do
  match key with
  | "api_version" =>
    return { fields with apiVersion := ← Json.field key fields.apiVersion (ApiVersion.read depth) }
  | "indexes" =>
    return { fields with indexes := ← Json.field key fields.indexes (readIndexes depth) }
  | "indent" => return { fields with indent := ← Json.field key fields.indent readIndent }
  | _ => Json.skipField; return fields

def forms (depth : Nat) : Json.RecordForms Settings where
  listed := do
    let apiVersion ← Json.firstOr {} (ApiVersion.read depth)
    let indexes ← Json.trailing [] (readIndexes depth)
    let indent ← Json.trailing none readIndent
    return { apiVersion, indexes, indent }
  named := do
    let fields ← Json.members Json.string (readMember depth) {}
    return {
      apiVersion := fields.apiVersion.getD {}
      indexes := fields.indexes.getD []
      indent := fields.indent.getD none }

def read (depth : Nat) : Reader Settings := Json.record shape (Json.nested depth forms)

def ofText (text : String) : Except Json.Error Settings := (read Json.maxNesting).run text

end Settings

end RichDoc
