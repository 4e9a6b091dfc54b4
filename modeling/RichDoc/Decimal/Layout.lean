import RichDoc.Decimal.Shortest

/-!
# Written doubles

The digits of a double are one thing and their layout is another. The
digits are always the shortest that read back; a `Layout` says which of
two equally near ones is taken, which numbers are written without an
exponent, what follows a whole number and what stands for a value that
is no number. Two layouts are in use: `json`, for numbers that stay
numbers, and `plain`, for numbers that become attribute text.
-/

namespace RichDoc.Decimal

/-- A double taken apart: its sign and its place on the ladder of magnitudes. -/
inductive Shape where
  | nan
  | infinite (negative : Bool)
  | finite (negative : Bool) (place : Nat)
deriving DecidableEq, Repr

/-- The weight of the sign bit. -/
def signSize : Nat := 0x8000000000000000

/-- The place of the infinities, one above the largest finite double. -/
def infinitePlace : Nat := 2047 * fractionSize

def Shape.ofBits (bits : Nat) : Shape :=
  let negative := decide (signSize ≤ bits)
  let place := bits % signSize
  if place < infinitePlace then .finite negative place
  else if place = infinitePlace then .infinite negative
  else .nan

def Shape.ofFloat (x : Float) : Shape := .ofBits x.toBits.toNat

/-! ## Figures -/

/-- The digits of a decimal from its first to its last that is not zero. -/
def Scaled.figures (x : Scaled) : List Char :=
  ((Nat.toDigits 10 x.digits).reverse.dropWhile (· == '0')).reverse

/-- Where the decimal point stands, counted from the left of the figures. -/
def Scaled.point (x : Scaled) : Int :=
  (Nat.toDigits 10 x.digits).length + x.exponent

def zeros (n : Nat) : List Char := List.replicate n '0'

/-- Figures with the decimal point inside, before or behind them. -/
def positional (figures : List Char) (point : Int) (wholeEnding : List Char) : List Char :=
  if point ≤ 0 then '0' :: '.' :: (zeros (-point).toNat ++ figures)
  else if figures.length ≤ point.toNat then
    figures ++ zeros (point.toNat - figures.length) ++ wholeEnding
  else figures.take point.toNat ++ '.' :: figures.drop point.toNat

/-- Figures with the point behind the first one, and a signed exponent. -/
def scientific (figures : List Char) (point : Int) : List Char :=
  let fraction := figures.drop 1
  figures.take 1
    ++ (if fraction.isEmpty then [] else '.' :: fraction)
    ++ 'e' :: (if point - 1 < 0 then '-' else '+') :: Nat.toDigits 10 (point - 1).natAbs

/-! ## Layouts -/

structure Layout where
  tie : Tie
  /-- Whether a number with its leading digit at this power of ten needs no exponent. -/
  needsNoExponent : Int → Bool
  wholeEnding : String
  nan : String
  infinity : Bool → String

namespace Layout

/-- Numbers between 10^-5 and 10^16 have no exponent, whole ones end in
a zero behind the point, and what is no number is `null`. -/
def json : Layout where
  tie := .toEven
  needsNoExponent power := -5 ≤ power && power < 16
  wholeEnding := ".0"
  nan := "null"
  infinity _ := "null"

/-- No exponent at all, and no point behind a whole number. -/
def plain : Layout where
  tie := .up
  needsNoExponent _ := true
  wholeEnding := ""
  nan := "NaN"
  infinity negative := if negative then "-inf" else "inf"

/-- The unsigned text of the finite double at a place. -/
def unsigned (layout : Layout) (place : Nat) : List Char :=
  if place = 0 then '0' :: layout.wholeEnding.toList
  else
    let x := shortest layout.tie place
    if layout.needsNoExponent (x.point - 1) then
      positional x.figures x.point layout.wholeEnding.toList
    else scientific x.figures x.point

def ofShape (layout : Layout) : Shape → String
  | .nan => layout.nan
  | .infinite negative => layout.infinity negative
  | .finite negative place =>
    String.ofList ((if negative then ['-'] else []) ++ layout.unsigned place)

def write (layout : Layout) (x : Float) : String := layout.ofShape (.ofFloat x)

end Layout

end RichDoc.Decimal
