/-!
# JSON values

Attributes of nodes and marks are free-form JSON, so JSON values are part
of the document model. Whole numbers and doubles are kept apart: `1` and
`1.0` are different values with different texts. The members of an object
are listed in order; objects that were read are sorted by key (`Keyed`),
objects that are built list their members in the order in which they are
to be written.
-/

namespace RichDoc

inductive Json where
  | null
  | bool (value : Bool)
  | int (value : Int)
  | float (value : Float)
  | str (text : String)
  | arr (items : List Json)
  | obj (members : List (String × Json))
deriving Repr, Inhabited, BEq

/-- The members of an object, as they hang on nodes and marks. -/
abbrev Attributes := List (String × Json)

end RichDoc
