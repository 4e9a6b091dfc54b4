/-!
# Ranges of code points

A class of characters that follows no pattern is a table: the first and
the last code point of each of its ranges, in ascending order.
-/

namespace RichDoc.Text

/-- Whether a character is in one of the ranges. -/
def within (ranges : List (Nat × Nat)) (c : Char) : Bool :=
  ranges.any fun (first, last) => first ≤ c.toNat && c.toNat ≤ last

end RichDoc.Text
