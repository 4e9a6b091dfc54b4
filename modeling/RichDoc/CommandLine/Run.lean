import RichDoc.CommandLine.Arguments
import RichDoc.Config.Basic
import RichDoc.Config.Path
import RichDoc.Document.Written
import RichDoc.Export.Document

/-!
# Running a command

A run loads the configuration, reads the input, converts it and writes
the result, to a file or to the standard output. What it does to the
outside world goes through a `System`, a record of the few operations it
needs, and the one operation that changes anything comes last: a run that
fails before has left everything as it was.
-/

namespace RichDoc

/-- What a run needs of the world around it. -/
structure System (m : Type → Type) where
  /-- The value of an environment variable. -/
  lookupVariable : String → m (Option String)
  exists? : String → m Bool
  /-- The text of a file, or nothing when it cannot be read. -/
  readFile : String → m (Option String)
  /-- Replaces the text of a file; false when that fails. -/
  writeFile : String → String → m Bool
  /-- All of the standard input, or nothing when it cannot be read. -/
  readInput : m (Option String)
  writeOutput : String → m Unit

/-- Why a run failed. -/
inductive RunError where
  | configMissing (path : String)
  | config (cause : ConfigError)
  | inputUnreadable (name : String)
  | standardInputUnreadable
  | document (cause : Json.Error)
  | conversion (cause : ExportError)
  | outputUnwritable (path : String)

def RunError.message : RunError → String
  | .configMissing path => "Config file not found: " ++ path
  | .config cause => cause.message
  | .inputUnreadable name => "Failed to read " ++ name
  | .standardInputUnreadable => "Failed to read stdin"
  | .document _ => "Failed to parse input document"
  | .conversion _ => "Failed to export document"
  | .outputUnwritable path => "Failed to write " ++ path

namespace Arguments

/-- The settings of a configuration, with what the command line says in place of its own. -/
def settings (arguments : Arguments) (config : Config) : Settings :=
  let preset := config.settings
  { preset with
    apiVersion := arguments.apiVersion.getD preset.apiVersion
    indent := if arguments.compact then none else arguments.indent.or preset.indent }

end Arguments

/-- The text of the document that is written in a text. -/
def exportInput (settings : Settings) (input : String) : Except RunError String := do
  let root ← (Node.ofText input).mapError .document
  (root.exportText { settings }).mapError .conversion

section

variable {m : Type → Type} [Monad m]

/-- The configuration in the file at a path; a file that is not there is no configuration. -/
def loadConfig (system : System m) (path : String) : ExceptT RunError m (Option Config) := do
  if !(← system.exists? path) then return none
  let some text ← system.readFile path | throw (.config (.unreadable path))
  match Config.parse path text with
  | .ok config => return some config
  | .error cause => throw (.config cause)

/-- The configuration that a command line asks for: the file it names,
which has to be there, or the usual one if there is one. -/
def chooseConfig (system : System m) (given : Option String) : ExceptT RunError m Config := do
  match given with
  | some given =>
    let path := (← Path.expand (m := m) system.lookupVariable given).getD given
    let some config ← loadConfig system path | throw (.configMissing path)
    return config
  | none =>
    let path ← Path.configFile (m := m) system.lookupVariable
    return (← loadConfig system path).getD {}

def readInput (system : System m) (name : String) : ExceptT RunError m String := do
  if name = "-" then
    let some text ← system.readInput | throw .standardInputUnreadable
    return text
  else
    let some text ← system.readFile name | throw (.inputUnreadable name)
    return text

/-- Writes the result to its file, or as a line to the standard output. -/
def writeResult (system : System m) (output : Option String) (text : String) :
    ExceptT RunError m Unit := do
  match output with
  | some path => if !(← system.writeFile path text) then throw (.outputUnwritable path)
  | none => system.writeOutput (text ++ "\n")

/-- Exports the input of a command line. -/
def run (system : System m) (arguments : Arguments) : ExceptT RunError m Unit := do
  let config ← chooseConfig system arguments.config
  let input ← readInput system arguments.input
  let text ← ExceptT.mk (pure (exportInput (arguments.settings config) input))
  writeResult system arguments.output text

end

end RichDoc
