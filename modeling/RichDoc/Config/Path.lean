import RichDoc.Text.Alphanumeric

/-!
# Paths with variables

A path that a user gives may start with the home directory, written as a
tilde, and may name variables of the environment. The path is first cut
into parts (`parts`), which needs no environment, and then the variables
are looked up. A tilde that comes out of a variable stays a tilde.
-/

namespace RichDoc.Path

/-- A part of a path. -/
inductive Part where
  | text (cs : List Char)
  /-- A variable, with the text that stands in for it when it is not set. -/
  | named (name : String) (standIn : Option (List Char))
deriving DecidableEq, Repr

/-- The characters of a variable's name. -/
def isNameChar (c : Char) : Bool := Text.isAlphanumeric c || c = '_'

/-- The first place where a dash follows a colon: what is before the colon
and what is behind the dash. -/
def splitStandIn : List Char → Option (List Char × List Char)
  | ':' :: '-' :: rest => some ([], rest)
  | c :: rest => (splitStandIn rest).map fun (name, value) => (c :: name, value)
  | [] => none

/-- What stands between braces: a name, or a name and a stand-in. Where
the name is missing all of it is the name. -/
def Part.ofBraces (inside : List Char) : Part :=
  match splitStandIn inside with
  | some (c :: name, value) => .named (String.ofList (c :: name)) (some value)
  | _ => .named (String.ofList inside) none

/-- The parts of a path. A variable is a dollar sign and a name, or a
dollar sign and braces. Two dollar signs stand for one, and a dollar sign
that starts no variable for itself. -/
def parts : List Char → List Part
  | [] => []
  | '$' :: '$' :: rest => .text ['$'] :: parts rest
  | '$' :: '\x7b' :: rest =>
    match h : rest.dropWhile (· ≠ '\x7d') with
    | [] => .text ['$', '\x7b'] :: parts rest
    | _ :: behind =>
      have : behind.length < rest.length := by
        have := (List.dropWhile_suffix (l := rest) (· ≠ '\x7d')).length_le
        rw [h] at this
        exact this
      .ofBraces (rest.takeWhile (· ≠ '\x7d')) :: parts behind
  | '$' :: rest =>
    have : (rest.dropWhile isNameChar).length ≤ rest.length :=
      (List.dropWhile_suffix isNameChar).length_le
    let name := rest.takeWhile isNameChar
    if name.isEmpty then .text ['$'] :: parts rest
    else .named (String.ofList name) none :: parts (rest.dropWhile isNameChar)
  | c :: rest => .text [c] :: parts rest
termination_by cs => cs.length
decreasing_by all_goals (simp only [List.length_cons]; omega)

/-- Replaces a tilde at the start that stands alone or before a slash. -/
def expandTilde (home : Option String) (cs : List Char) : List Char :=
  match cs, home with
  | ['~'], some home => home.toList
  | '~' :: '/' :: rest, some home => home.toList ++ '/' :: rest
  | cs, _ => cs

section

variable {m : Type → Type} [Monad m]

/-- The text of a part, if it has no variable or one that is set or has a stand-in. -/
def Part.expand (value? : String → m (Option String)) : Part → m (Option (List Char))
  | .text cs => return some cs
  | .named name standIn => do
    match ← value? name with
    | some value => return some value.toList
    | none => return standIn

/-- The variable that holds the home directory. -/
def homeVariable : String := "HOME"

/-- The path with its variables and its tilde replaced, if all its variables are set. -/
def expand (value? : String → m (Option String)) (path : String) : m (Option String) := do
  let texts ← (parts path.toList).mapM (Part.expand value?)
  let home ← value? homeVariable
  return (texts.mapM id).map fun texts =>
    if path.toList.head? = some '~' then String.ofList (expandTilde home texts.flatten)
    else String.ofList texts.flatten

/-- Where the configuration file is unless another one is given. -/
def configFile (value? : String → m (Option String)) : m String := do
  let directory := expandTilde (← value? homeVariable) "~/.config/nestmark".toList
  return String.ofList directory ++ "/config.toml"

end

end RichDoc.Path
