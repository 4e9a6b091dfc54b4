import RichDoc.Decimal.Layout

/-!
# Reading numerals

Numbers that arrive as text: unsigned numerals with an upper limit,
signed 64-bit integers and doubles. A numeral is read from the left, and
the first character that spoils it decides the error, so a digit too many
before a foreign character is reported as a value that is too large.
-/

namespace RichDoc.Decimal

inductive NumeralError where
  | empty
  | foreignCharacter
  | tooLarge
deriving DecidableEq, Repr

def NumeralError.message : NumeralError → String
  | .empty => "cannot parse integer from empty string"
  | .foreignCharacter => "invalid digit found in string"
  | .tooLarge => "number too large to fit in target type"

/-- The value of a decimal digit. -/
def digitValue (c : Char) : Nat := c.toNat - '0'.toNat

/-- A numeral one digit longer. -/
def appendDigit (limit : Nat) (value : Nat) (c : Char) : Except NumeralError Nat :=
  if !c.isDigit then .error .foreignCharacter
  else
    let next := value * 10 + digitValue c
    if limit < next then .error .tooLarge else .ok next

/-- An unsigned numeral, with at most a plus sign in front, of value at most `limit`. -/
def readNat (limit : Nat) : List Char → Except NumeralError Nat
  | [] => .error .empty
  | ['+'] => .error .foreignCharacter
  | '+' :: digits => digits.foldlM (appendDigit limit) 0
  | digits => digits.foldlM (appendDigit limit) 0

/-- The sign in front of a numeral, and what follows it. -/
def splitSign : List Char → Bool × List Char
  | '-' :: rest => (true, rest)
  | '+' :: rest => (false, rest)
  | rest => (false, rest)

def maxInt64 : Int := 0x7FFFFFFFFFFFFFFF
def minInt64 : Int := -0x8000000000000000
def maxUInt64 : Int := 0xFFFFFFFFFFFFFFFF

def fitsInt64 (n : Int) : Bool := minInt64 ≤ n && n ≤ maxInt64

/-- A signed numeral in the range of 64-bit integers. -/
def readInt64? (cs : List Char) : Option Int :=
  let (negative, digits) := splitSign cs
  if digits.isEmpty || !digits.all Char.isDigit then none
  else
    let size : Int := Nat.ofDigitChars 10 digits 0
    let value := if negative then -size else size
    if fitsInt64 value then some value else none

/-! ## Doubles -/

/-- The double nearest to a decimal. The bounds on the point only keep
the powers of ten small: beyond them the answer is infinite or zero. -/
def Scaled.toFloat (x : Scaled) : Float :=
  if x.digits = 0 then 0
  else if 310 < x.point then 1 / 0
  else if x.point < -330 then 0
  else if 0 ≤ x.exponent then Float.ofScientific x.digits false x.exponent.toNat
  else Float.ofScientific x.digits true (-x.exponent).toNat

/-- The exponent part of a double: nothing, or a letter and a signed numeral. -/
def readExponent? : List Char → Option Int
  | [] => some 0
  | c :: rest =>
    if c == 'e' || c == 'E' then
      let (negative, digits) := splitSign rest
      if digits.isEmpty || !digits.all Char.isDigit then none
      else
        let size : Int := Nat.ofDigitChars 10 digits 0
        some (if negative then -size else size)
    else none

/-- An unsigned decimal; its point may stand at either end, but not alone. -/
def readScaled? (cs : List Char) : Option Scaled :=
  let whole := cs.takeWhile Char.isDigit
  let (fraction, rest) := match cs.dropWhile Char.isDigit with
    | '.' :: rest => (rest.takeWhile Char.isDigit, rest.dropWhile Char.isDigit)
    | rest => ([], rest)
  if whole.isEmpty && fraction.isEmpty then none
  else (readExponent? rest).map fun power =>
    ⟨Nat.ofDigitChars 10 (whole ++ fraction) 0, power - fraction.length⟩

/-- A double, or one of the words for what is no number, in any case of letters. -/
def readFloat? (cs : List Char) : Option Float :=
  let (negative, rest) := splitSign cs
  let unsigned : Option Float :=
    match String.ofList (rest.map Char.toLower) with
    | "inf" | "infinity" => some (1 / 0)
    | "nan" => some (0 / 0)
    | _ => (readScaled? rest).map Scaled.toFloat
  unsigned.map fun x => if negative then -x else x

end RichDoc.Decimal
