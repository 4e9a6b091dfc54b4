import RichDoc.Decimal.Numeral
import RichDoc.Json.Value
import RichDoc.Json.Error

/-!
# JSON tokens

The words, numbers and strings of a JSON text. A reader takes characters
from the front of the text and leaves the rest; it fails with the first
thing that is wrong.

Numbers keep at most the digits that fit 64 bits: further digits before
the point only raise the power of ten, further digits behind it are
dropped. A number with neither point nor exponent that fits the range of
64-bit integers is whole, every other number is a double, and one too
large for a double is malformed.

Values that nobody asked for are skipped. They have to be JSON too, but
the numbers in them may be of any size and their strings may hold halves
of surrogate pairs.
-/

namespace RichDoc.Json

/-- A reader of something at the front of a text. -/
abbrev Reader := StateT (List Char) (Except Error)

def isSpace (c : Char) : Bool := c = ' ' || c = '\n' || c = '\t' || c = '\r'

/-- The next character that is no space, left in place. -/
def peek : Reader (Option Char) := do
  modify (·.dropWhile isSpace)
  return (← get).head?

/-- Passes over one character. -/
def advance : Reader Unit := modify (·.drop 1)

/-- Passes over one of the words `null`, `true` and `false`. -/
def word (text : String) : Reader Unit := do
  let rest ← get
  if text.toList.isPrefixOf rest then set (rest.drop text.length)
  else if rest.isPrefixOf text.toList then throw .truncated
  else throw .malformed

/-! ## Strings -/

/-- The value of a hexadecimal digit. -/
def hexValue? (c : Char) : Option Nat :=
  if '0' ≤ c && c ≤ '9' then some (c.toNat - '0'.toNat)
  else if 'a' ≤ c && c ≤ 'f' then some (c.toNat - 'a'.toNat + 10)
  else if 'A' ≤ c && c ≤ 'F' then some (c.toNat - 'A'.toNat + 10)
  else none

/-- Four hexadecimal digits; too few bytes for four digits are a text cut short. -/
def hexUnit (cs : List Char) : Except Error (Nat × List Char) :=
  if (cs.take 4).foldl (fun n c => n + c.utf8Size) 0 < 4 then .error .truncated
  else match (cs.take 4).mapM hexValue? with
    | some [a, b, c, d] => .ok (((a * 16 + b) * 16 + c) * 16 + d, cs.drop 4)
    | _ => .error .malformed

def isHighSurrogate (n : Nat) : Bool := 0xD800 ≤ n && n ≤ 0xDBFF
def isLowSurrogate (n : Nat) : Bool := 0xDC00 ≤ n && n ≤ 0xDFFF

/-- The character of a letter behind a backslash. -/
def escapeLetter? : Char → Option Char
  | '"' => some '"'
  | '\\' => some '\\'
  | '/' => some '/'
  | 'b' => some (Char.ofNat 0x08)
  | 'f' => some (Char.ofNat 0x0C)
  | 'n' => some '\n'
  | 'r' => some '\r'
  | 't' => some '\t'
  | _ => none

/-- The second half of a surrogate pair. -/
def lowSurrogate : List Char → Except Error (Nat × List Char)
  | [] | ['\\'] => .error .truncated
  | '\\' :: 'u' :: rest => do
    let (low, rest) ← hexUnit rest
    if isLowSurrogate low then return (low, rest) else throw .malformed
  | _ => .error .malformed

/-- The character of an escape, given the text behind its backslash. -/
def escaped : List Char → Except Error (Char × List Char)
  | [] => .error .truncated
  | 'u' :: rest => do
    let (unit, rest) ← hexUnit rest
    if isLowSurrogate unit then throw .malformed
    else if isHighSurrogate unit then
      let (low, rest) ← lowSurrogate rest
      return (Char.ofNat (0x10000 + (unit - 0xD800) * 0x400 + (low - 0xDC00)), rest)
    else return (Char.ofNat unit, rest)
  | c :: rest => match escapeLetter? c with
    | some d => .ok (d, rest)
    | none => .error .malformed

/-- As `escaped`, for strings that are passed over: halves of surrogate pairs may stand alone. -/
def escapedLoosely : List Char → Except Error (Char × List Char)
  | 'u' :: rest => do
    let (unit, rest) ← hexUnit rest
    return (Char.ofNat unit, rest)
  | cs => escaped cs

/-- The characters up to the closing quote. The first list is at least as long as the second and
only bounds the recursion. -/
def stringChars (escape : List Char → Except Error (Char × List Char)) :
    List Char → List Char → Except Error (List Char × List Char)
  | [], _ => .error .truncated
  | _ :: _, [] => .error .truncated
  | _ :: _, '"' :: rest => .ok ([], rest)
  | _ :: bound, '\\' :: rest => do
    let (c, rest) ← escape rest
    let (cs, rest) ← stringChars escape bound rest
    return (c :: cs, rest)
  | _ :: bound, c :: rest =>
    if c.toNat < 0x20 then .error .malformed
    else do
      let (cs, rest) ← stringChars escape bound rest
      return (c :: cs, rest)

/-- A string, from behind its opening quote. -/
def string : Reader String := fun cs => do
  let (text, rest) ← stringChars escaped cs cs
  return (String.ofList text, rest)

/-- A string that is passed over, from behind its opening quote. -/
def skipString : Reader Unit := fun cs => do
  let (_, rest) ← stringChars escapedLoosely cs cs
  return ((), rest)

/-! ## Numbers -/

/-- The parts of a number as written. -/
structure NumberText where
  negative : Bool
  whole : List Char
  fraction : Option (List Char)
  exponent : Option (Bool × List Char)

/-- One digit or more; `cut` says what is wrong when the text ends before the first. -/
def digits (cut : Error) : Reader (List Char) := do
  let rest ← get
  match rest.takeWhile Char.isDigit with
  | [] => throw (if rest.isEmpty then cut else .malformed)
  | ds =>
    set (rest.dropWhile Char.isDigit)
    return ds

/-- The digits before the point: a leading zero stands alone. -/
def wholeDigits (cut : Error) : Reader (List Char) := do
  let ds ← digits cut
  match ds with
  | '0' :: _ :: _ => throw .malformed
  | _ => return ds

def fractionPart (cut : Error) : Reader (Option (List Char)) := do
  match (← get).head? with
  | some '.' => advance; some <$> digits cut
  | _ => return none

def exponentPart (cut : Error) : Reader (Option (Bool × List Char)) := do
  let some c := (← get).head? | return none
  if c = 'e' || c = 'E' then
    advance
    let (negative, rest) := Decimal.splitSign (← get)
    set rest
    return some (negative, ← digits cut)
  else return none

/-- A number, sign included. -/
def numberText (cut : Error) : Reader NumberText := do
  let negative := (← get).head? == some '-'
  if negative then advance
  let whole ← wholeDigits cut
  let fraction ← fractionPart cut
  let exponent ← exponentPart cut
  return { negative, whole, fraction, exponent }

/-- Digits are kept while their value fits 64 bits. Yields the value and
the number of digits left over. -/
def keepDigits : Nat → List Char → Nat × Nat
  | value, [] => (value, 0)
  | value, d :: ds =>
    let next := value * 10 + Decimal.digitValue d
    if Decimal.maxUInt64 < next then (value, ds.length + 1) else keepDigits next ds

/-- `value * 10 ^ power` in double arithmetic, or nothing when it is too large. -/
def scaleFloat (value : Float) (power : Int) : Option Float :=
  if 308 < power then
    if value == 0 then some value else none
  else if 0 ≤ power then
    let scaled := value * Float.ofScientific 1 false power.toNat
    if scaled.isInf then none else some scaled
  else if -308 ≤ power then
    some (value / Float.ofScientific 1 false (-power).toNat)
  else if value == 0 then some value
  else scaleFloat (value / Float.ofScientific 1 false 308) (power + 308)
termination_by (-power).toNat
decreasing_by omega

namespace NumberText

/-- The power of ten that the exponent part asks for. -/
def power (n : NumberText) : Int :=
  match n.exponent with
  | none => 0
  | some (negative, ds) =>
    let size : Int := Nat.ofDigitChars 10 ds 0
    if negative then -size else size

/-- The number's value as a double, or nothing when it is too large for one. -/
def toFloat? (n : NumberText) : Option Float :=
  let (value, wholeLeft) := keepDigits 0 n.whole
  let fraction := n.fraction.getD []
  let (value, fractionLeft) := keepDigits value fraction
  let places : Int := fraction.length - fractionLeft
  (scaleFloat value.toUInt64.toFloat (wholeLeft - places + n.power)).map
    fun x => if n.negative then -x else x

/-- The whole number that is written, if it is one and in range. Minus zero is not. -/
def toInt? (n : NumberText) : Option Int :=
  if n.fraction.isSome || n.exponent.isSome then none
  else
    let size : Int := Nat.ofDigitChars 10 n.whole 0
    if n.negative then
      if size = 0 || -size < Decimal.minInt64 then none else some (-size)
    else if Decimal.maxUInt64 < size then none else some size

end NumberText

/-- A number, whole where it can be. -/
def number : Reader Json := do
  let n ← numberText .truncated
  match n.toInt? with
  | some value => return .int value
  | none => match n.toFloat? with
    | some value => return .float value
    | none => throw .malformed

/-- A number that is passed over; cut short, it is malformed. -/
def skipNumber : Reader Unit := discard (numberText .malformed)

/-! ## Values without brackets -/

/-- The value that starts with the character `c` and is no list or object. -/
def scalar (c : Char) : Reader Json :=
  match c with
  | 'n' => do word "null"; return .null
  | 't' => do word "true"; return .bool true
  | 'f' => do word "false"; return .bool false
  | '"' => do advance; return .str (← string)
  | c => if c = '-' || c.isDigit then number else throw .malformed

def skipScalar (c : Char) : Reader Unit :=
  match c with
  | '"' => do advance; skipString
  | c => if c = '-' || c.isDigit then skipNumber else discard (scalar c)

end RichDoc.Json
