import RichDoc.Json.Token
import RichDoc.Keyed

/-!
# Reading JSON

Lists and objects, whole values, and the readers for the shapes that a
document is made of. Lists and objects may be nested `maxNesting` deep,
and every reader of something that can hold brackets takes as its first
argument how many levels are still open to it; the recursion runs on that
number. A value that is skipped has no such limit but its own length.

The items of a list are counted against the characters that were left at
its start. Each item takes at least one character, so the count runs out
only where the text does.
-/

namespace RichDoc.Json

/-- Lists and objects may be nested this deep. -/
def maxNesting : Nat := 127

/-! ## Lists -/

/-- Whether another item follows; passes over the comma in front of it. -/
def nextItem (first : Bool) : Reader Bool := do
  match ← peek with
  | none => throw .truncated
  | some ']' => return false
  | some c =>
    if first then return true
    else if c = ',' then
      advance
      match ← peek with
      | none => throw .truncated
      | some ']' => throw .malformed
      | some _ => return true
    else throw .malformed

/-- At most one item for each character of the bound. -/
def itemsUpTo (item : Reader α) : List Char → Bool → Reader (List α)
  | [], _ => throw .truncated
  | _ :: bound, first => do
    if ← nextItem first then
      let x ← item
      let xs ← itemsUpTo item bound false
      return x :: xs
    else return []

/-- The items of a list and its closing bracket, from behind the opening one. -/
def items (item : Reader α) : Reader (List α) := do
  let xs ← itemsUpTo item (← get) true
  advance
  return xs

/-- The closing bracket of a list that must hold no further item. -/
def endOfItems : Reader Unit := do
  match ← peek with
  | none => throw .truncated
  | some ']' => advance
  | some _ => throw .malformed

/-! ## Objects -/

/-- Whether another member follows; passes over the comma in front of it
and the opening quote of its key. -/
def nextMember (first : Bool) : Reader Bool := do
  let key : Option Char → Reader Bool
    | none => throw .truncated
    | some '"' => do advance; return true
    | some _ => throw .malformed
  match ← peek with
  | none => throw .truncated
  | some '\x7d' => return false
  | some c =>
    if first then key (some c)
    else if c = ',' then advance; key (← peek)
    else throw .malformed

/-- The colon behind a key. -/
def colon : Reader Unit := do
  match ← peek with
  | none => throw .truncated
  | some ':' => advance
  | some _ => throw .malformed

/-- At most one member for each character of the bound. -/
def membersUpTo (key : Reader κ) (member : κ → σ → Reader σ) :
    List Char → Bool → σ → Reader σ
  | [], _, _ => throw .truncated
  | _ :: bound, first, state => do
    if ← nextMember first then
      let k ← key
      membersUpTo key member bound false (← member k state)
    else return state

/-- The members of an object and its closing brace, from behind the
opening one. Each key is handed to `member`, which reads the colon and the
value and folds them into the state. -/
def members (key : Reader κ) (member : κ → σ → Reader σ) (state : σ) : Reader σ := do
  let state ← membersUpTo key member (← get) true state
  advance
  return state

/-! ## Values -/

/-- A value, given the reader for the values inside it. -/
def valueOf (inner : Option (Reader Json)) : Reader Json := do
  match ← peek with
  | none => throw .truncated
  | some '[' => match inner with
    | none => throw .malformed
    | some value => advance; .arr <$> items value
  | some '\x7b' => match inner with
    | none => throw .malformed
    | some value =>
      advance
      .obj <$> members string (fun key ms => do colon; return Keyed.insert key (← value) ms) []
  | some c => scalar c

/-- A value with at most the given number of levels of brackets. -/
def value : Nat → Reader Json
  | 0 => valueOf none
  | depth + 1 => valueOf (some (value depth))

/-- Passes over a value with at most one level of brackets for each character of the bound. -/
def skipUpTo : List Char → Reader Unit
  | [] => throw .truncated
  | _ :: bound => do
    match ← peek with
    | none => throw .truncated
    | some '[' => advance; discard (items (skipUpTo bound))
    | some '\x7b' => advance; members skipString (fun _ _ => do colon; skipUpTo bound) ()
    | some c => skipScalar c

/-- Passes over a value of any nesting. -/
def skip : Reader Unit := do skipUpTo (← get)

/-! ## Values of a wanted shape -/

/-- What a value is called when it does not fit. -/
def Found.ofScalar : Json → Found
  | .null => .null
  | .bool b => .bool b
  | .int n => .int n
  | .float x => .float x
  | .str text => .str text
  | .arr _ => .sequence
  | .obj _ => .map

/-- Refuses the value that starts with the character `c`; one without brackets has to be
well-formed for that, or its own error comes first. -/
def refuse (c : Char) (expected : String) : Reader α := do
  let found ← match c with
    | '[' => pure .sequence
    | '\x7b' => pure .map
    | c => Found.ofScalar <$> scalar c
  throw (.mismatch (.invalidType found expected))

def text : Reader String := do
  match ← peek with
  | none => throw .truncated
  | some '"' => do advance; string
  | some c => refuse c "a string"

/-- Nothing for `null`, or else what `reader` reads. -/
def optional (reader : Reader α) : Reader (Option α) := do
  match ← peek with
  | some 'n' => word "null"; return none
  | _ => some <$> reader

/-- A whole number that is not negative and at most `limit`. -/
def natural (limit : Nat) (expected : String) : Reader Nat := do
  match ← peek with
  | none => throw .truncated
  | some c =>
    if c = '-' || c.isDigit then
      match ← number with
      | .int n =>
        if n < 0 || limit < n.toNat then throw (.mismatch (.invalidValue (.int n) expected))
        else return n.toNat
      | other => throw (.mismatch (.invalidType (Found.ofScalar other) expected))
    else refuse c expected

/-- What is read one level further down, if a level is left. -/
def nested (depth : Nat) (reader : Nat → α) : Option α :=
  match depth with
  | 0 => none
  | depth + 1 => some (reader depth)

/-- A list, given the reader of its items. -/
def listOf (item : Option (Reader α)) : Reader (List α) := do
  match ← peek with
  | none => throw .truncated
  | some '[' => match item with
    | none => throw .malformed
    | some item => advance; items item
  | some c => refuse c "a sequence"

/-- The members of an object of free-form values, from behind its opening brace. -/
def freeMembers (depth : Nat) : Reader Attributes :=
  members string (fun key ms => do colon; return Keyed.insert key (← value depth) ms) []

/-- An object of free-form values. -/
def attributes (depth : Nat) : Reader Attributes := do
  match ← peek with
  | none => throw .truncated
  | some '\x7b' => match nested depth freeMembers with
    | none => throw .malformed
    | some inside => advance; inside
  | some c => refuse c "a map"

/-- The two forms of a record, each read from behind its opening bracket. -/
structure RecordForms (α : Type) where
  /-- The fields in order, up to the closing bracket. -/
  listed : Reader α
  /-- The named fields, with the closing brace. -/
  named : Reader α

/-- A record, given the readers of its two forms. -/
def record (expected : String) (inside : Option (RecordForms α)) : Reader α := do
  match ← peek with
  | none => throw .truncated
  | some '[' => match inside with
    | none => throw .malformed
    | some forms =>
      advance
      let x ← forms.listed
      endOfItems
      return x
  | some '\x7b' => match inside with
    | none => throw .malformed
    | some forms => advance; forms.named
  | some c => refuse c expected

/-- The value of a field, unless the field was there before. -/
def field (name : String) (before : Option α) (reader : Reader α) : Reader (Option α) := do
  if before.isSome then throw (.mismatch (.duplicateField name))
  colon
  some <$> reader

/-- A field nobody asked for. -/
def skipField : Reader Unit := do colon; skip

def required (name : String) : Option α → Reader α
  | some x => return x
  | none => throw (.mismatch (.missingField name))

/-- An item of a record in list form that may be missing at the end. -/
def trailing (default : α) (reader : Reader α) : Reader α := do
  if ← nextItem false then reader else return default

/-- The first item of a record in list form, where it may be missing. -/
def firstOr (default : α) (reader : Reader α) : Reader α := do
  if ← nextItem true then reader else return default

/-- The first item of a record in list form, which may not be missing. -/
def leading (expected : String) (reader : Reader α) : Reader α := do
  if ← nextItem true then reader else throw (.mismatch (.invalidLength 0 expected))

/-- The whole of a text, with nothing but spaces behind it. -/
def Reader.run (reader : Reader α) (input : String) : Except Error α := do
  let (x, rest) ← StateT.run reader input.toList
  if rest.all isSpace then return x else throw .malformed

end RichDoc.Json
