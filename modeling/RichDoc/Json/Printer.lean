import RichDoc.Decimal.Layout
import RichDoc.Json.Value

/-!
# JSON text

A value is written in one of two ways: compact, with no blank outside
strings, or indented, with every item and member on a line of its own.
Both walk the value in the same order and differ only in what stands
between tokens, so removing the blanks and line feeds outside strings
from the indented text gives the compact one. Strings escape the quote,
the backslash and the characters below the space, line feeds among them,
which is why a line feed in the text is always one between tokens.
-/

namespace RichDoc.Json

/-! ## Tokens -/

/-- A hexadecimal digit, lower case. -/
def hexDigit (n : Nat) : Char := (Nat.toDigits 16 (n % 16)).headD '0'

/-- A character as it stands in a string. -/
def escapeChar (c : Char) : List Char :=
  if c = '"' then ['\\', '"']
  else if c = '\\' then ['\\', '\\']
  else if 0x20 ≤ c.toNat then [c]
  else if c.toNat = 0x08 then ['\\', 'b']
  else if c.toNat = 0x09 then ['\\', 't']
  else if c.toNat = 0x0A then ['\\', 'n']
  else if c.toNat = 0x0C then ['\\', 'f']
  else if c.toNat = 0x0D then ['\\', 'r']
  else ['\\', 'u', '0', '0', hexDigit (c.toNat / 16), hexDigit c.toNat]

def quote (text : String) : List Char :=
  '"' :: (text.toList.flatMap escapeChar ++ ['"'])

def writeInt (n : Int) : List Char :=
  if n < 0 then '-' :: Nat.toDigits 10 n.natAbs else Nat.toDigits 10 n.natAbs

def writeBool (b : Bool) : List Char := (if b then "true" else "false").toList

def writeFloat (x : Float) : List Char := (Decimal.Layout.json.write x).toList

/-! ## Compact text -/

mutual

def compactChars : Json → List Char
  | .null => "null".toList
  | .bool b => writeBool b
  | .int n => writeInt n
  | .float x => writeFloat x
  | .str text => quote text
  | .arr items => '[' :: (compactItems items ++ [']'])
  | .obj members => '\x7b' :: (compactMembers members ++ ['\x7d'])

def compactItems : List Json → List Char
  | [] => []
  | item :: rest => compactChars item ++ compactMoreItems rest

def compactMoreItems : List Json → List Char
  | [] => []
  | item :: rest => ',' :: (compactChars item ++ compactMoreItems rest)

def compactMembers : List (String × Json) → List Char
  | [] => []
  | (key, value) :: rest => quote key ++ ':' :: (compactChars value ++ compactMoreMembers rest)

def compactMoreMembers : List (String × Json) → List Char
  | [] => []
  | (key, value) :: rest =>
    ',' :: (quote key ++ ':' :: (compactChars value ++ compactMoreMembers rest))

end

/-- The text of a value with no blank between tokens. -/
def compact (value : Json) : String := String.ofList value.compactChars

/-! ## Indented text -/

/-- A new line, `level` steps of `width` spaces deep. -/
def newline (width level : Nat) : List Char := '\n' :: List.replicate (width * level) ' '

mutual

def indentedChars (width level : Nat) : Json → List Char
  | .null => "null".toList
  | .bool b => writeBool b
  | .int n => writeInt n
  | .float x => writeFloat x
  | .str text => quote text
  | .arr items => '[' :: (indentedItems width level items ++ [']'])
  | .obj members => '\x7b' :: (indentedMembers width level members ++ ['\x7d'])

def indentedItems (width level : Nat) : List Json → List Char
  | [] => []
  | item :: rest =>
    newline width (level + 1) ++ indentedChars width (level + 1) item
      ++ indentedMoreItems width level rest

def indentedMoreItems (width level : Nat) : List Json → List Char
  | [] => newline width level
  | item :: rest =>
    ',' :: (newline width (level + 1) ++ indentedChars width (level + 1) item
      ++ indentedMoreItems width level rest)

def indentedMembers (width level : Nat) : List (String × Json) → List Char
  | [] => []
  | (key, value) :: rest =>
    newline width (level + 1) ++ quote key ++ ':' :: ' ' ::
      (indentedChars width (level + 1) value ++ indentedMoreMembers width level rest)

def indentedMoreMembers (width level : Nat) : List (String × Json) → List Char
  | [] => newline width level
  | (key, value) :: rest =>
    ',' :: (newline width (level + 1) ++ quote key ++ ':' :: ' ' ::
      (indentedChars width (level + 1) value ++ indentedMoreMembers width level rest))

end

/-- The text of a value with items and members on lines of their own. -/
def indented (width : Nat) (value : Json) : String :=
  String.ofList (value.indentedChars width 0)

end RichDoc.Json
