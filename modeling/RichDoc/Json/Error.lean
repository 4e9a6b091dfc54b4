import RichDoc.Decimal.Layout
import RichDoc.Text.Quoted

/-!
# What can be wrong with a JSON text

A text is read from left to right and the first thing wrong with it is
the answer. It is either no JSON (`malformed`), JSON that ends too early
(`truncated`), or JSON of another shape than the value that is wanted,
and only then is there a message to show.
-/

namespace RichDoc.Json

/-- What stood where something else was wanted. -/
inductive Found where
  | null
  | bool (value : Bool)
  | int (value : Int)
  | float (value : Float)
  | str (text : String)
  | sequence
  | map
deriving Repr

def Found.describe : Found → String
  | .null => "null"
  | .bool b => "boolean `" ++ (if b then "true" else "false") ++ "`"
  | .int n => "integer `" ++ toString n ++ "`"
  | .float x => "floating point `" ++ Decimal.Layout.json.write x ++ "`"
  | .str text => "string " ++ Text.quoted text
  | .sequence => "sequence"
  | .map => "map"

/-- A well-formed value that does not fit. -/
inductive Mismatch where
  | invalidType (found : Found) (expected : String)
  | invalidValue (found : Found) (expected : String)
  | invalidLength (length : Nat) (expected : String)
  | missingField (name : String)
  | duplicateField (name : String)
deriving Repr

def Mismatch.message : Mismatch → String
  | .invalidType found expected => "invalid type: " ++ found.describe ++ ", expected " ++ expected
  | .invalidValue found expected => "invalid value: " ++ found.describe ++ ", expected " ++ expected
  | .invalidLength length expected =>
    "invalid length " ++ toString length ++ ", expected " ++ expected
  | .missingField name => "missing field `" ++ name ++ "`"
  | .duplicateField name => "duplicate field `" ++ name ++ "`"

inductive Error where
  | malformed
  | truncated
  | mismatch (cause : Mismatch)
deriving Repr

end RichDoc.Json
