import RichDoc.Toml.Value

/-!
# TOML text

A string is written in the first form that shows it without escapes: on
one line between double quotes or single quotes, or between three of
them. Where none does, it is escaped between double quotes, over several
lines if it has line feeds. A text over several lines starts on a line of
its own, and the line feed in front of it is no part of it.
-/

namespace RichDoc.Toml

inductive StringForm where
  | basic
  | literal
  | multilineBasic
  | multilineLiteral
deriving DecidableEq, Repr

/-- The length of the longest run of a character. -/
def longestRun (c : Char) (cs : List Char) : Nat :=
  let count : Nat × Nat → Char → Nat × Nat := fun (longest, run) d =>
    if d = c then (max longest (run + 1), run + 1) else (longest, 0)
  (cs.foldl count (0, 0)).1

/-- A control character that no string form shows as it is. -/
def needsCode (c : Char) : Bool :=
  c ≠ '\t' && c ≠ '\n' && (c.toNat < 0x20 || c.toNat = 0x7F)

def StringForm.ofChars (cs : List Char) : StringForm :=
  let codes := cs.any needsCode
  let escape := cs.contains '\\'
  let lines := cs.contains '\n'
  let doubles := longestRun '"' cs
  let singles := longestRun '\'' cs
  if !codes && !escape && doubles = 0 && !lines then .basic
  else if !codes && singles = 0 && !lines then .literal
  else if !codes && !escape && doubles ≤ 2 then .multilineBasic
  else if !codes && singles ≤ 2 then .multilineLiteral
  else if lines then .multilineBasic
  else .basic

/-- A hexadecimal digit, upper case. -/
def hexDigit (n : Nat) : Char := (((Nat.toDigits 16 (n % 16)).headD '0')).toUpper

/-- A character other than a quote between double quotes. -/
def escapeChar (keepLines : Bool) (c : Char) : List Char :=
  if c = '\t' then ['\\', 't']
  else if c = '\n' then if keepLines then ['\n'] else ['\\', 'n']
  else if c = '\\' then ['\\', '\\']
  else if c.toNat = 0x08 then ['\\', 'b']
  else if c.toNat = 0x0C then ['\\', 'f']
  else if c.toNat = 0x0D then ['\\', 'r']
  else if needsCode c then ['\\', 'u', '0', '0', hexDigit (c.toNat / 16), hexDigit c.toNat]
  else [c]

/-- The characters between double quotes. `allowed` quotes may stand in a
row as they are, and `left` more of them may follow. -/
def escapeChars (keepLines : Bool) (allowed : Nat) : (left : Nat) → List Char → List Char
  | _, [] => []
  | left, c :: rest =>
    if c = '"' then
      match left with
      | 0 => '\\' :: '"' :: escapeChars keepLines allowed allowed rest
      | left + 1 => '"' :: escapeChars keepLines allowed left rest
    else escapeChar keepLines c ++ escapeChars keepLines allowed allowed rest

/-- The line feed in front of a text over several lines. -/
def firstLine (cs : List Char) : List Char := if cs.contains '\n' then ['\n'] else []

def quoteChars (cs : List Char) : List Char :=
  match StringForm.ofChars cs with
  | .basic => ['"'] ++ escapeChars false 0 0 cs ++ ['"']
  | .literal => ['\''] ++ cs ++ ['\'']
  | .multilineBasic =>
    ['"', '"', '"'] ++ firstLine cs ++ escapeChars true 2 2 cs ++ ['"', '"', '"']
  | .multilineLiteral => ['\'', '\'', '\''] ++ firstLine cs ++ cs ++ ['\'', '\'', '\'']

/-- A string, in the form that suits it. -/
def quote (text : String) : String := String.ofList (quoteChars text.toList)

/-! ## Lines -/

def stringLine (key text : String) : String := key ++ " = " ++ quote text ++ "\n"

def numberLine (key : String) (n : Nat) : String := key ++ " = " ++ toString n ++ "\n"

/-- A list of numbers, one to a line. -/
def numbersLine (key : String) (ns : List Nat) : String :=
  key ++ " = [\n" ++ String.join (ns.map fun n => "    " ++ toString n ++ ",\n") ++ "]\n"

/-- The header of one more table in a list of tables. -/
def repeatedHeader (key : String) : String := "[[" ++ key ++ "]]\n"

end RichDoc.Toml
