import RichDoc.Export.Settings
import RichDoc.Toml.Printer
import RichDoc.Toml.Reader

/-!
# Configuration files

A configuration file presets the export settings. Every entry may be
missing, and what is missing keeps the default of the settings. The names
of the indexes have to be different; the first name that was there before
is reported.

An entry of another name has no meaning, but the numbers in it have to be
usable. Items of a list behind those that are asked for are not looked at.
-/

namespace RichDoc

open Pandoc (ApiVersion)

structure Config where
  apiVersion : Option ApiVersion := none
  indent : Option Nat := none
  indexes : List IndexDefinition := []
deriving DecidableEq, Repr

/-- Why a configuration file cannot be used. -/
inductive ConfigError where
  | unreadable (path : String)
  | malformed (path : String)
  | duplicateIndex (path : String) (name : String)
deriving DecidableEq, Repr

def ConfigError.message : ConfigError → String
  | .unreadable path => "Failed to read config file at " ++ path
  | .malformed path => "Failed to parse config file at " ++ path
  | .duplicateIndex path name =>
    "Index '" ++ name ++ "' is defined more than once in " ++ path

/-- The first name in a list that was there before, given the names before the list. -/
def firstRepeated? (before : List String) : List String → Option String
  | [] => none
  | name :: rest =>
    if name ∈ before then some name else firstRepeated? (name :: before) rest

namespace Config

/-- The settings that the configuration presets. -/
def settings (config : Config) : Settings where
  apiVersion := config.apiVersion.getD {}
  indexes := config.indexes
  indent := config.indent

/-! ## Reading -/

/-- A number from zero to a limit. -/
def natural? (limit : Nat) : Toml.Value → Option Nat
  | .integer n => if 0 ≤ n && n.toNat ≤ limit then some n.toNat else none
  | _ => none

/-- A version, from the first three items of a list. -/
def apiVersion? : Toml.Value → Option ApiVersion
  | .array _ (major :: minor :: patch :: _) => do
    return ⟨← natural? maxVersionNumber major, ← natural? maxVersionNumber minor,
      ← natural? maxVersionNumber patch⟩
  | _ => none

def text? : Toml.Value → Option String
  | .string text => some text
  | _ => none

/-- What a reader makes of a value that may be missing. A value that is
there has to fit. -/
def fit? (reader : Toml.Value → Option α) : Option Toml.Value → Option (Option α)
  | none => some none
  | some value => (reader value).map some

/-- The members of other names than the given ones can be used. -/
def othersUsable (names : List String) (members : Toml.Members) : Bool :=
  Toml.usableMembers (members.filter fun (name, _) => !names.contains name)

/-- An index, from a table or from a list of its entries in order. -/
def index? : Toml.Value → Option IndexDefinition
  | .table _ members => do
    guard (othersUsable ["name", "ref_class", "placement"] members)
    let name ← text? (← members.lookup "name")
    let refClass ← fit? text? (members.lookup "ref_class")
    let placement ← fit? text? (members.lookup "placement")
    return { name, refClass, placement }
  | .array _ items => do
    let name ← text? (← items[0]?)
    let refClass ← fit? text? items[1]?
    let placement ← fit? text? items[2]?
    return { name, refClass, placement }
  | _ => none

def indexes? : Toml.Value → Option (List IndexDefinition)
  | .array _ items => items.mapM index?
  | _ => none

/-- The configuration of a document. -/
def ofMembers? (members : Toml.Members) : Option Config := do
  guard (othersUsable ["api_version", "indent", "indexes"] members)
  let apiVersion ← fit? apiVersion? (members.lookup "api_version")
  let indent ← fit? (natural? maxIndent) (members.lookup "indent")
  let indexes ← fit? indexes? (members.lookup "indexes")
  return { apiVersion, indent, indexes := indexes.getD [] }

/-- The configuration in the text of the file at a path. -/
def parse (path : String) (text : String) : Except ConfigError Config :=
  match (Toml.parse? text).bind ofMembers? with
  | none => .error (.malformed path)
  | some config =>
    match firstRepeated? [] (config.indexes.map (·.name)) with
    | some name => .error (.duplicateIndex path name)
    | none => .ok config

/-! ## Writing -/

def writeIndex (definition : IndexDefinition) : String :=
  Toml.repeatedHeader "indexes"
    ++ Toml.stringLine "name" definition.name
    ++ ((definition.refClass.map (Toml.stringLine "ref_class")).getD "")
    ++ ((definition.placement.map (Toml.stringLine "placement")).getD "")

/-- The entries in front of the indexes. -/
def writeEntries (config : Config) : String :=
  ((config.apiVersion.map fun version =>
      Toml.numbersLine "api_version" [version.major, version.minor, version.patch]).getD "")
    ++ ((config.indent.map (Toml.numberLine "indent")).getD "")

/-- The text of a configuration: its entries and its indexes, with a blank
line between them. -/
def write (config : Config) : String :=
  let entries := config.writeEntries
  let parts := (if entries.isEmpty then [] else [entries]) ++ config.indexes.map writeIndex
  "\n".intercalate parts

end Config

end RichDoc
