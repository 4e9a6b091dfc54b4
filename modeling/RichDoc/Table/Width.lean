import RichDoc.Document.Attributes
import RichDoc.Pandoc.Ast

/-!
# Column widths

A table may give widths to its columns, as fractions of the full width.
The columns without one share what is left, or, when nothing is left, get
the share they would have if no width were given at all.
-/

namespace RichDoc

open Pandoc (ColWidth)

/-- The width that an entry of the attribute `widths` gives. -/
def authoredWidth? : Json → Option Float
  | .int n => some (Float.ofInt n)
  | .float x => some x
  | _ => none

/-- The authored widths of a number of columns. -/
def authoredWidths (attrs : Attributes) (columns : Nat) : List (Option Float) :=
  let entries := match attrs.get? "widths" with
    | some (.arr entries) => entries
    | _ => []
  (List.range columns).map fun column => entries[column]?.bind authoredWidth?

/-- The width of a column that has none of its own. -/
def sharedWidth (authored : List (Option Float)) : Float :=
  let used := (authored.filterMap id).foldl (· + ·) 0
  let unset := authored.countP (·.isNone)
  let remaining := 1 - used
  if remaining > 0 && 0 < unset then remaining / unset.toFloat
  else 1 / (max authored.length 1).toFloat

def columnWidths (attrs : Attributes) (columns : Nat) : List ColWidth :=
  let authored := authoredWidths attrs columns
  let shared := sharedWidth authored
  authored.map fun width => .fraction (width.getD shared)

end RichDoc
