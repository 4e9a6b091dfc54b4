import RichDoc.Document.Node
import RichDoc.Export.Settings
import RichDoc.Mark.Priority
import RichDoc.Range.Untangle

/-!
# The state of an export

A conversion reads the settings and the mark priority and keeps three
things: the marks it has met, the number of citations it has numbered and
the path of the node it is working on. The path is what an error reports;
whoever goes down to a child (`descend`) takes it off again on the way
back, whether the child converted or failed, so a later step finds the
path as an earlier one left it.
-/

namespace RichDoc

/-- Why a document cannot be converted. -/
inductive ExportError where
  | unknownNodeType (type : String) (path : String)
  | structural (path : String) (message : String)
  | diverged (cause : Diverged)
deriving DecidableEq, Repr

def ExportError.message : ExportError → String
  | .unknownNodeType type path => "Unknown node type '" ++ type ++ "' at " ++ path
  | .structural path message => "Invalid document structure at " ++ path ++ ": " ++ message
  | .diverged cause =>
    "Mark ranges did not untangle after " ++ toString cause.resolutions ++ " resolutions ("
      ++ toString cause.ranges ++ " ranges)"

/-- What a conversion reads and does not change. -/
structure Environment where
  settings : Settings := {}
  priority : Priority := .standard

/-- What a conversion keeps from one node to the next. -/
structure Progress where
  registry : Registry := .empty
  /-- How many citations have a number. Note numbers are signed integers of 32 bits, so this stands
  for an export of fewer than 2^31 citations; here the count itself has no bound. -/
  citations : Nat := 0
  /-- The steps from the root to the node at hand, the last one first. -/
  path : List String := [NodeKind.doc.name]

/-- A conversion. Its progress outlives a failure. -/
abbrev Export := ReaderT Environment (ExceptT ExportError (StateM Progress))

namespace Export

/-- Runs a conversion from some progress on. -/
def runFrom (convert : Export α) (environment : Environment) (progress : Progress) :
    Except ExportError α × Progress :=
  (convert.run environment).run.run progress

/-- Runs a conversion from the start. -/
def run (convert : Export α) (environment : Environment) : Except ExportError α :=
  (convert.runFrom environment {}).1

/-! ## Paths and errors -/

def path : Export String := do
  return "/".intercalate (← get).path.reverse

def structural (message : String) : Export α := do
  throw (.structural (← path) message)

/-- A node of a known type where it cannot stand. -/
def misplaced (kind : NodeKind) : Export α :=
  structural ("'" ++ kind.name ++ "' is not allowed here")

/-- The type of a node, which has to be one of the vocabulary. -/
def kindOf (node : Node) : Export NodeKind := do
  match node.kind? with
  | some kind => return kind
  | none => throw (.unknownNodeType node.type (← path))

def enter (index : Nat) (type : String) (progress : Progress) : Progress :=
  { progress with path := (toString index ++ ":" ++ type) :: progress.path }

def leave (progress : Progress) : Progress := { progress with path := progress.path.tail }

/-- Converts something that belongs to a child node, with the child on the path. -/
def descend (index : Nat) (type : String) (convert : Export α) : Export α :=
  fun environment progress =>
    let (result, progress) := convert environment (enter index type progress)
    (result, leave progress)

/-! ## Marks -/

/-- The index of a mark, which is registered if it is new. -/
def indexOf (mark : Mark) : Export Nat :=
  modifyGet fun progress =>
    let (index, registry) := progress.registry.indexOf mark
    (index, { progress with registry })

/-- The next note number. It fits in 32 bits as long as there are fewer than 2^31 citations. -/
def nextCitation : Export Nat :=
  modifyGet fun progress =>
    (progress.citations + 1, { progress with citations := progress.citations + 1 })

/-- The order of marks by their indexes. -/
def markOrder : Export (Nat → Nat → Ordering) := do
  return (← get).registry.compare (← read).priority

end Export

end RichDoc
