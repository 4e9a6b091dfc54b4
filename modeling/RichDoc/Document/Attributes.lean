import RichDoc.Decimal.Numeral
import RichDoc.Json.Printer
import RichDoc.Text.Blank

/-!
# Typed reads of attributes

An editor leaves an attribute out, sets it to null or sets it to the
empty string, and means the same by all three: every reader here takes
them as absent. Numbers may be given as numbers or as text.
-/

namespace RichDoc.Attributes

def get? (attrs : Attributes) (key : String) : Option Json := attrs.lookup key

/-- A string that is not empty. -/
def string? (attrs : Attributes) (key : String) : Option String :=
  match attrs.get? key with
  | some (.str text) => if text = "" then none else some text
  | _ => none

/-- The string, or the empty one when it is absent. -/
def string (attrs : Attributes) (key : String) : String := (attrs.string? key).getD ""

/-- A whole number in the range of 64-bit integers. -/
def integer? (attrs : Attributes) (key : String) : Option Int :=
  match attrs.get? key with
  | some (.int n) => if Decimal.fitsInt64 n then some n else none
  | some (.str text) => Decimal.readInt64? (Text.trim text.toList)
  | _ => none

def maxInt32 : Int := 0x7FFFFFFF
def minInt32 : Int := -0x80000000

/-- A whole number, drawn to the nearest bound when it leaves the range of 32-bit integers. -/
def int32? (attrs : Attributes) (key : String) : Option Int :=
  (attrs.integer? key).map fun n => max minInt32 (min maxInt32 n)

/-- A number as a double. -/
def number? (attrs : Attributes) (key : String) : Option Float :=
  match attrs.get? key with
  | some (.int n) => some (Float.ofInt n)
  | some (.float x) => some x
  | some (.str text) => Decimal.readFloat? (Text.trim text.toList)
  | _ => none

def boolean? (attrs : Attributes) (key : String) : Option Bool :=
  match attrs.get? key with
  | some (.bool b) => some b
  | _ => none

/-- The classes: a list of strings, or one string with blanks between them. -/
def classes (attrs : Attributes) : List String :=
  match attrs.get? "classes" with
  | some (.arr items) => items.filterMap fun
    | .str text => if text = "" then none else some text
    | _ => none
  | some (.str text) => (Text.fields text.toList).map String.ofList
  | _ => []

/-- An attribute value as text: a string stands for itself, all else is written as JSON. -/
def valueText : Json → String
  | .str text => text
  | value => value.compact

/-- The free attributes as pairs of key and text, in the order of their keys. -/
def pairs (attrs : Attributes) : List (String × String) :=
  match attrs.get? "attributes" with
  | some (.obj members) => members.filterMap fun
    | (_, .null) => none
    | (key, value) => some (key, valueText value)
  | _ => []

def hasId (attrs : Attributes) : Bool := (attrs.string? "id").isSome

end RichDoc.Attributes
