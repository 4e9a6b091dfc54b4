import RichDoc.Decimal.Numeral
import RichDoc.Toml.Value

/-!
# TOML scalars without quotes

Truth values, whole numbers, floating point numbers, dates and times. A
value without quotes is first taken as a whole and then recognised by its
form, so every reader here either accepts all of a text or refuses it. A
number of the right form that is too large is accepted as unusable, and
so is a text that has the start of a number and underscores in the right
places.
-/

namespace RichDoc.Toml

/-! ## Numbers -/

/-- The digits of a numeral, in which single underscores may stand between digits. -/
def digitRun? (isDigit : Char → Bool) (cs : List Char) : Option (List Char) :=
  let groups := cs.splitOn '_'
  if groups.all fun group => !group.isEmpty && group.all isDigit then some groups.flatten
  else none

/-- A decimal numeral, without leading zeros. Behind a sign it may start
with an underscore, and then with zeros as well. -/
def wholeRun? (signed : Bool) (cs : List Char) : Option (List Char) :=
  match cs with
  | '_' :: ds => if signed then digitRun? Char.isDigit ds else none
  | ds => match digitRun? Char.isDigit ds with
    | some ('0' :: _ :: _) => none
    | result => result

/-- The numeral has a sign in front. -/
def isSigned (cs : List Char) : Bool := cs.head? = some '+' || cs.head? = some '-'

/-- The value of a digit in a base of at most sixteen. -/
def digitIn? (base : Nat) (c : Char) : Option Nat :=
  let value :=
    if c.isDigit then c.toNat - '0'.toNat
    else if 'a' ≤ c && c ≤ 'f' then c.toNat - 'a'.toNat + 10
    else if 'A' ≤ c && c ≤ 'F' then c.toNat - 'A'.toNat + 10
    else base
  if value < base then some value else none

/-- The whole numbers that are kept: signed or unsigned, in 128 bits. -/
def inRange (n : Int) : Bool :=
  -0x80000000000000000000000000000000 ≤ n && n ≤ 0xFFFFFFFFFFFFFFFFFFFFFFFFFFFFFFFF

/-- A whole number that is written as `cs`. -/
def integerOf (cs : List Char) (n : Int) : Value :=
  if inRange n then .integer n else .unusable (String.ofList cs)

/-- A numeral in a base other than ten, given the digits behind the name of
the base. It may come without digits, but is of no use then. -/
def inBase? (base : Nat) (cs ds : List Char) : Option Value :=
  if ds.isEmpty then some (.unusable (String.ofList cs))
  else (digitRun? (fun c => (digitIn? base c).isSome) ds).map fun ds =>
    let size : Nat := ds.foldl (fun n c => n * base + (digitIn? base c).getD 0) 0
    integerOf cs size

/-- The mark of a fraction or an exponent. -/
def isFloatMark (c : Char) : Bool := c = '.' || c = 'e' || c = 'E'

/-- Every underscore stands between two digits, of which those of base
sixteen count as well. A sign may take the place of the first. -/
def underscoresFit (cs : List Char) : Bool :=
  let isDigit (c : Char) : Bool := (digitIn? 16 c).isSome
  let groups := cs.splitOn '_'
  groups.all (!·.isEmpty)
    && groups.tail.all (fun group => group.head?.any isDigit)
    && groups.dropLast.all (fun group => group.length = 1 || group.getLast?.any isDigit)

/-- A text that has an underscore behind its first digits, and neither a
fraction nor an exponent. It counts as a whole number whatever its other
characters are. -/
def isLooseInteger (cs : List Char) : Bool :=
  let rest := (Decimal.splitSign cs).2
  rest.head? ≠ some '0' && (rest.dropWhile Char.isDigit).head? = some '_'
    && !rest.any isFloatMark && underscoresFit cs

/-- A whole number in base ten. -/
def decimalInteger? (cs : List Char) : Option Value :=
  let (negative, rest) := Decimal.splitSign cs
  match wholeRun? (isSigned cs) rest with
  | some ds =>
    let size : Int := Nat.ofDigitChars 10 ds 0
    some (integerOf cs (if negative then -size else size))
  | none => if isLooseInteger cs then some (.unusable (String.ofList cs)) else none

def integer? (cs : List Char) : Option Value :=
  match cs with
  | '0' :: 'x' :: ds => inBase? 16 cs ds
  | '0' :: 'o' :: ds => inBase? 8 cs ds
  | '0' :: 'b' :: ds => inBase? 2 cs ds
  | cs => decimalInteger? cs

/-- An exponent without its letter. -/
def isExponent (cs : List Char) : Bool :=
  (digitRun? Char.isDigit (Decimal.splitSign cs).2).isSome

/-- A fraction or an exponent or both, as they follow the whole part of a float. -/
def isFloatTail (cs : List Char) : Bool :=
  let isLetter (c : Char) : Bool := c = 'e' || c = 'E'
  let (fraction, exponent) := cs.span fun c => !isLetter c
  let fractionFits := match fraction with
    | '.' :: ds => (digitRun? Char.isDigit ds).isSome
    | ds => ds.isEmpty && !exponent.isEmpty
  let exponentFits := match exponent with
    | _ :: ds => isExponent ds
    | [] => true
  fractionFits && exponentFits

/-- A number with a fraction or an exponent. -/
def isDecimal (cs : List Char) : Bool :=
  let (whole, tail) := (Decimal.splitSign cs).2.span fun c => c.isDigit || c = '_'
  (wholeRun? (isSigned cs) whole).isSome && isFloatTail tail

/-- The decimal is in the range of doubles. -/
def fitsFloat (cs : List Char) : Bool :=
  match Decimal.readFloat? (cs.filter (· != '_')) with
  | some x => !x.isInf
  | none => false

/-- A floating point number; one too large for a double is of no use. -/
def float? (cs : List Char) : Option Value :=
  let text := String.ofList cs
  let rest := (Decimal.splitSign cs).2
  if rest = ['i', 'n', 'f'] || rest = ['n', 'a', 'n'] then some (.float text)
  else if isDecimal cs then some (if fitsFloat cs then .float text else .unusable text)
  else none

/-! ## Dates and times -/

/-- A number of exactly `width` digits, and the rest. -/
def fixedDigits? (width : Nat) (cs : List Char) : Option (Nat × List Char) :=
  let ds := cs.take width
  if ds.length = width && ds.all Char.isDigit then
    some (Nat.ofDigitChars 10 ds 0, cs.drop width)
  else none

def daysIn (year month : Nat) : Nat :=
  if month = 2 then
    if year % 4 = 0 && (year % 100 ≠ 0 || year % 400 = 0) then 29 else 28
  else if month = 4 || month = 6 || month = 9 || month = 11 then 30
  else 31

/-- A character that has to stand next. -/
def after? (c : Char) : List Char → Option (List Char)
  | d :: rest => if d = c then some rest else none
  | [] => none

/-- Passes over a date. -/
def date? (cs : List Char) : Option (List Char) := do
  let (year, cs) ← fixedDigits? 4 cs
  let (month, cs) ← fixedDigits? 2 (← after? '-' cs)
  let (day, cs) ← fixedDigits? 2 (← after? '-' cs)
  if 1 ≤ month && month ≤ 12 && 1 ≤ day && day ≤ daysIn year month then some cs else none

/-- Hours and minutes. -/
def clock? (cs : List Char) : Option (List Char) := do
  let (hour, cs) ← fixedDigits? 2 cs
  let (minute, cs) ← fixedDigits? 2 (← after? ':' cs)
  if hour ≤ 23 && minute ≤ 59 then some cs else none

/-- Passes over a time of day; seconds and their fraction may be missing. -/
def time? (cs : List Char) : Option (List Char) := do
  match ← clock? cs with
  | ':' :: cs =>
    let (second, cs) ← fixedDigits? 2 cs
    if 60 < second then none
    else match cs with
      | '.' :: cs =>
        if (cs.takeWhile Char.isDigit).isEmpty then none else some (cs.dropWhile Char.isDigit)
      | cs => some cs
  | cs => some cs

/-- The offset of a time zone, or none. -/
def isOffset : List Char → Bool
  | [] | ['Z'] | ['z'] => true
  | '+' :: cs | '-' :: cs => clock? cs = some []
  | _ => false

def isDatetime (cs : List Char) : Bool :=
  time? cs = some [] || match date? cs with
    | some [] => true
    | some (c :: cs) => (c = 'T' || c = 't' || c = ' ') && ((time? cs).map isOffset).getD false
    | none => false

/-- The value that a text without quotes stands for. -/
def scalar? (cs : List Char) : Option Value :=
  match String.ofList cs with
  | "true" => some (.boolean true)
  | "false" => some (.boolean false)
  | text => (integer? cs).or <| (float? cs).or <|
    if isDatetime cs then some (.datetime text) else none

end RichDoc.Toml
