import RichDoc.Toml.Scalar

/-!
# Reading TOML

A document is read line by line: a line is blank, a header or an
assignment, and may end in a comment. Brackets may be nested `maxNesting`
deep, a key may have `maxKeyParts` parts, and the recursion runs on what
is left of either. The loops over characters, items and lines are counted
against the length of the text that is left, of which each round takes at
least one character.
-/

namespace RichDoc.Toml

/-- A reader of something at the front of a text. -/
abbrev Reader := StateT (List Char) Option

/-- Lists and tables inside values may be nested this deep. -/
def maxNesting : Nat := 80

/-- A dotted key has at most this many parts. -/
def maxKeyParts : Nat := 80

def peek : Reader (Option Char) := return (← get).head?

def advance (count : Nat) : Reader Unit := modify (·.drop count)

/-- Passes over a character that has to stand next. -/
def expect (c : Char) : Reader Unit := do
  set (← after? c (← get))

/-! ## Blanks, comments and line ends -/

def isBlank (c : Char) : Bool := c = ' ' || c = '\t'

/-- Characters that may stand in strings and comments as they are. -/
def isVisible (c : Char) : Bool := c = '\t' || (0x20 ≤ c.toNat && c.toNat ≠ 0x7F)

def skipBlanks : Reader Unit := modify (·.dropWhile isBlank)

/-- Passes over a comment, if there is one. -/
def skipComment : Reader Unit :=
  modify fun
    | '#' :: rest => rest.dropWhile isVisible
    | cs => cs

/-- Passes over a line end; false when something else stands next. -/
def newline : Reader Bool := do
  match ← get with
  | '\n' :: rest => set rest; return true
  | '\r' :: '\n' :: rest => set rest; return true
  | _ => return false

/-- What may follow a header or an assignment on its line. -/
def endOfLine : Reader Unit := do
  skipBlanks
  skipComment
  if (← get).isEmpty then return
  if !(← newline) then failure

def skipLinesUpTo : Nat → Reader Unit
  | 0 => return
  | bound + 1 => do
    skipBlanks
    skipComment
    if ← newline then skipLinesUpTo bound

/-- Passes over blanks, comments and line ends. -/
def skipLines : Reader Unit := do skipLinesUpTo (← get).length

/-! ## Strings -/

/-- The character of a number of hexadecimal digits. -/
def unicode? (width : Nat) (cs : List Char) : Option (Char × List Char) := do
  let ds ← (cs.take width).mapM (digitIn? 16)
  let n := ds.foldl (fun n d => n * 16 + d) 0
  if ds.length = width && (n < 0xD800 || (0xE000 ≤ n && n ≤ 0x10FFFF)) then
    some (Char.ofNat n, cs.drop width)
  else none

/-- The character of an escape, given the text behind its backslash. -/
def escaped? : List Char → Option (Char × List Char)
  | 'b' :: rest => some (Char.ofNat 0x08, rest)
  | 't' :: rest => some ('\t', rest)
  | 'n' :: rest => some ('\n', rest)
  | 'f' :: rest => some (Char.ofNat 0x0C, rest)
  | 'r' :: rest => some ('\r', rest)
  | 'e' :: rest => some (Char.ofNat 0x1B, rest)
  | '"' :: rest => some ('"', rest)
  | '\\' :: rest => some ('\\', rest)
  | 'x' :: rest => unicode? 2 rest
  | 'u' :: rest => unicode? 4 rest
  | 'U' :: rest => unicode? 8 rest
  | _ => none

/-- The characters of a basic string, up to its closing quote. -/
def basicChars? : Nat → List Char → Option (List Char × List Char)
  | 0, _ => none
  | _ + 1, [] => none
  | _ + 1, '"' :: rest => some ([], rest)
  | bound + 1, '\\' :: rest => do
    let (c, rest) ← escaped? rest
    let (cs, rest) ← basicChars? bound rest
    return (c :: cs, rest)
  | bound + 1, c :: rest =>
    if isVisible c then do
      let (cs, rest) ← basicChars? bound rest
      return (c :: cs, rest)
    else none

/-- The characters of a literal string, up to its closing quote. -/
def literalChars? : List Char → Option (List Char × List Char)
  | [] => none
  | '\'' :: rest => some ([], rest)
  | c :: rest =>
    if isVisible c then (literalChars? rest).map fun (cs, rest) => (c :: cs, rest) else none

/-- How many of the quotes in a row belong to the text when they close it;
nothing when they do not. Two quotes may stand before the closing three. -/
def closing? (quotes : Nat) : Option Nat :=
  if 3 ≤ quotes then some (min quotes 5 - 3) else none

def quotesInRow (quote : Char) (cs : List Char) : Nat := (cs.takeWhile (· = quote)).length

/-- The text behind blanks and line ends. -/
def dropLines : List Char → List Char
  | '\n' :: rest => dropLines rest
  | '\r' :: '\n' :: rest => dropLines rest
  | c :: rest => if isBlank c then dropLines rest else c :: rest
  | [] => []

/-- The text behind a line end that a backslash has escaped: what follows
up to the next character that is no blank is no part of the string. -/
def joined? (cs : List Char) : Option (List Char) :=
  match cs.dropWhile isBlank with
  | '\n' :: rest | '\r' :: '\n' :: rest => some (dropLines rest)
  | _ => none

/-- The characters of a string over several lines, up to its closing quotes. -/
def multilineChars? (quote : Char) (escapes : Bool) :
    Nat → List Char → Option (List Char × List Char)
  | 0, _ => none
  | _ + 1, [] => none
  | bound + 1, c :: rest =>
    if c = quote then
      match closing? (quotesInRow quote (c :: rest)) with
      | some inside => some (List.replicate inside quote, (c :: rest).drop (inside + 3))
      | none => (multilineChars? quote escapes bound rest).map fun (cs, rest) => (c :: cs, rest)
    else if c = '\\' && escapes then
      match joined? rest with
      | some rest => multilineChars? quote escapes bound rest
      | none => do
        let (c, rest) ← escaped? rest
        let (cs, rest) ← multilineChars? quote escapes bound rest
        return (c :: cs, rest)
    else if isVisible c || c = '\n' || (c = '\r' && rest.head? = some '\n') then
      (multilineChars? quote escapes bound rest).map fun (cs, rest) => (c :: cs, rest)
    else none

/-- A string, of one of the four kinds. -/
def string : Reader String := fun cs => do
  let (text, rest) ← match cs with
    | '"' :: '"' :: '"' :: '\n' :: rest | '"' :: '"' :: '"' :: '\r' :: '\n' :: rest
    | '"' :: '"' :: '"' :: rest => multilineChars? '"' true (rest.length + 1) rest
    | '\'' :: '\'' :: '\'' :: '\n' :: rest | '\'' :: '\'' :: '\'' :: '\r' :: '\n' :: rest
    | '\'' :: '\'' :: '\'' :: rest => multilineChars? '\'' false (rest.length + 1) rest
    | '"' :: rest => basicChars? (rest.length + 1) rest
    | '\'' :: rest => literalChars? rest
    | _ => none
  return (String.ofList text, rest)

/-! ## Keys -/

def isKeyChar (c : Char) : Bool := c.isAlphanum || c = '_' || c = '-'

/-- One part of a key. -/
def simpleKey : Reader String := fun cs =>
  match cs with
  | '"' :: rest => (basicChars? (rest.length + 1) rest).map fun (text, rest) =>
    (String.ofList text, rest)
  | '\'' :: rest => (literalChars? rest).map fun (text, rest) => (String.ofList text, rest)
  | cs =>
    let name := cs.takeWhile isKeyChar
    if name.isEmpty then none else some (String.ofList name, cs.dropWhile isKeyChar)

/-- A dotted key of at most the given number of parts. -/
def keyUpTo : Nat → Reader (List String × String)
  | 0 => failure
  | parts + 1 => do
    let part ← simpleKey
    skipBlanks
    match ← peek with
    | some '.' =>
      advance 1
      skipBlanks
      let (path, last) ← keyUpTo parts
      return (part :: path, last)
    | _ => return ([], part)

/-- A dotted key, as its path and its last part. -/
def key : Reader (List String × String) := keyUpTo maxKeyParts

/-! ## Values -/

/-- The characters of a value without quotes: all but blanks, line ends and those that stand
around values. -/
def isBare (c : Char) : Bool :=
  match c with
  | ' ' | '\t' | '\r' | '\n' | '#' | ',' | '=' | '[' | ']' | '\x7b' | '\x7d' => false
  | _ => true

/-- A value without quotes. A date may be followed by a blank and a time. -/
def bare : Reader Value := fun cs => do
  let word := cs.takeWhile isBare
  let rest := cs.dropWhile isBare
  let (word, rest) := match rest with
    | ' ' :: c :: more =>
      if date? word = some [] && c.isDigit then
        (word ++ ' ' :: c :: more.takeWhile isBare, more.dropWhile isBare)
      else (word, rest)
    | _ => (word, rest)
  return (← scalar? word, rest)

def itemsUpTo (item : Reader Value) : Nat → Reader (List Value)
  | 0 => failure
  | bound + 1 => do
    skipLines
    if (← peek) = some ']' then
      advance 1
      return []
    let x ← item
    skipLines
    if (← peek) = some ',' then
      advance 1
      return x :: (← itemsUpTo item bound)
    expect ']'
    return [x]

/-- An assignment: a key, the sign and a value, with gaps around the sign. -/
def assignment (gap : Reader Unit) (value : Reader Value) :
    Reader (List String × String × Value) := do
  let (path, last) ← key
  gap
  expect '='
  gap
  return (path, last, ← value)

/-- The members of an inline table, in which a gap may be several lines long. -/
def membersUpTo (value : Reader Value) : Nat → Members → Reader Members
  | 0, _ => failure
  | bound + 1, members => do
    skipLines
    if (← peek) = some '\x7d' then
      advance 1
      return members
    let (path, last, x) ← assignment skipLines value
    let members ← assign path last x .inline members
    skipLines
    if (← peek) = some ',' then
      advance 1
      membersUpTo value bound members
    else
      expect '\x7d'
      return members

/-- A value, given the reader for the values inside it, if brackets are allowed. -/
def valueOf (inner : Option (Reader Value)) : Reader Value := do
  match ← peek with
  | some '"' | some '\'' => .string <$> string
  | some '[' =>
    advance 1
    .array false <$> itemsUpTo (← inner) ((← get).length + 1)
  | some '\x7b' =>
    advance 1
    .table .inline <$> membersUpTo (← inner) ((← get).length + 1) []
  | _ => bare

/-- A value with at most the given number of levels of brackets. -/
def value : Nat → Reader Value
  | 0 => valueOf none
  | depth + 1 => valueOf (some (value depth))

/-! ## Documents -/

/-- A document that is being read: its tables and the path of the one that is open. -/
structure Draft where
  header : List String := []
  root : Members := []

/-- Reads one header or assignment into the document. -/
def line (draft : Draft) : Reader Draft := do
  match ← get with
  | '[' :: '[' :: rest =>
    set rest
    skipBlanks
    let (path, last) ← key
    expect ']'
    expect ']'
    return ⟨path ++ [last], ← changeAt false (addTable last) path .header draft.root⟩
  | '[' :: rest =>
    set rest
    skipBlanks
    let (path, last) ← key
    expect ']'
    return ⟨path ++ [last], ← changeAt false (defineTable last) path .header draft.root⟩
  | _ =>
    let (path, last, x) ← assignment skipBlanks (value maxNesting)
    let root ← changeAt false (assign path last x) draft.header .header draft.root
    return { draft with root }

def linesUpTo : Nat → Draft → Reader Draft
  | 0, _ => failure
  | bound + 1, draft => do
    skipLines
    if (← get).isEmpty then return draft
    let draft ← line draft
    endOfLine
    linesUpTo bound draft

/-- The root table of the document that is written in a text, if it is one. -/
def parse? (text : String) : Option Members := do
  let cs := match text.toList with
    | c :: rest => if c.toNat = 0xFEFF then rest else c :: rest
    | [] => []
  let (draft, _) ← (linesUpTo (cs.length + 1) {}).run cs
  return draft.root

end RichDoc.Toml
