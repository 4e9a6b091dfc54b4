import RichDoc.CommandLine.Version

/-!
# Command line arguments

The words of a command line are read from left to right. A word is an
option, a group of short options, the value that the option before it
waits for, or the name of the input. An option is settled only when the
next option or the input is found, or at the end, so a word that is no
option at all is reported before a bad value in front of it.
-/

namespace RichDoc

open Pandoc (ApiVersion)

/-- Why a command line cannot be used, or what it asks for instead of a run. -/
inductive UsageError where
  | unknownArgument
  /-- A value for an option that takes none. -/
  | unwantedValue
  /-- No value, or an empty one, for an option that needs one. -/
  | missingValue
  | malformedValue
  /-- An option given twice, or together with one that excludes it. -/
  | conflict
  | missingInput
  | helpRequested
  | versionRequested
deriving DecidableEq, Repr

structure Arguments where
  /-- The file to read, or a dash for the standard input. -/
  input : String
  output : Option String := none
  config : Option String := none
  indent : Option Nat := none
  compact : Bool := false
  apiVersion : Option ApiVersion := none
deriving DecidableEq, Repr

namespace Arguments

/-- The options that take a value. -/
inductive Setting where
  | output
  | config
  | indent
  | apiVersion
deriving DecidableEq, Repr

/-- The options that take none. -/
inductive Switch where
  | compact
  | help
  | version
deriving DecidableEq, Repr

def settingNamed? : String → Option Setting
  | "output" => some .output
  | "config" => some .config
  | "indent" => some .indent
  | "api-version" => some .apiVersion
  | _ => none

def switchNamed? : String → Option Switch
  | "compact" => some .compact
  | "help" => some .help
  | "version" => some .version
  | _ => none

def settingLettered? : Char → Option Setting
  | 'o' => some .output
  | 'c' => some .config
  | _ => none

def switchLettered? : Char → Option Switch
  | 'h' => some .help
  | 'V' => some .version
  | _ => none

/-- A command line that is being read. -/
structure Draft where
  input : Option String := none
  output : Option String := none
  config : Option String := none
  indent : Option Nat := none
  compact : Bool := false
  apiVersion : Option ApiVersion := none
  /-- The option that is not settled yet, with its value if that is there. -/
  pending : Option (Setting × Option String) := none
  /-- Two dashes were found: all that follows is input. -/
  inputOnly : Bool := false

namespace Draft

def has (draft : Draft) : Setting → Bool
  | .output => draft.output.isSome
  | .config => draft.config.isSome
  | .indent => draft.indent.isSome
  | .apiVersion => draft.apiVersion.isSome

def path (text : String) : Except UsageError String :=
  if text = "" then throw .missingValue else return text

def number (text : String) : Except UsageError Nat :=
  (Decimal.readNat maxIndent text.toList).mapError fun _ => .malformedValue

def apiVersionOf (text : String) : Except UsageError ApiVersion :=
  (parseApiVersion text).mapError fun _ => .malformedValue

/-- Settles an option with its value. -/
def put (draft : Draft) (setting : Setting) (value : Option String) : Except UsageError Draft := do
  let some text := value | throw .missingValue
  if draft.has setting then throw .conflict
  match setting with
  | .output => return { draft with output := some (← path text) }
  | .config => return { draft with config := some (← path text) }
  | .indent => return { draft with indent := some (← number text) }
  | .apiVersion => return { draft with apiVersion := some (← apiVersionOf text) }

/-- Settles the option that waits, if there is one. -/
def settle (draft : Draft) : Except UsageError Draft :=
  match draft.pending with
  | none => return draft
  | some (setting, value) => { draft with pending := none }.put setting value

/-- An option with a value, or one that waits for its value. -/
def takeSetting (draft : Draft) (setting : Setting) (value : Option String) :
    Except UsageError Draft := do
  let draft ← draft.settle
  match value with
  | some _ => draft.put setting value
  | none => return { draft with pending := some (setting, none) }

def takeSwitch (draft : Draft) (switch : Switch) : Except UsageError Draft := do
  let draft ← draft.settle
  match switch with
  | .help => throw .helpRequested
  | .version => throw .versionRequested
  | .compact => if draft.compact then throw .conflict else return { draft with compact := true }

/-- An option by its name, with the value behind an equals sign. -/
def takeLong (draft : Draft) (body : List Char) : Except UsageError Draft :=
  let name := String.ofList (body.takeWhile (· ≠ '='))
  let value := match body.dropWhile (· ≠ '=') with
    | _ :: text => some (String.ofList text)
    | [] => none
  match settingNamed? name, switchNamed? name with
  | some setting, _ => draft.takeSetting setting value
  | none, some switch =>
    if value.isSome then throw .unwantedValue else draft.takeSwitch switch
  | none, none => throw .unknownArgument

/-- Options by their letters; what follows the letter of one that takes a value is the value. -/
def takeShort (draft : Draft) : List Char → Except UsageError Draft
  | [] => return draft
  | letter :: rest =>
    match settingLettered? letter, switchLettered? letter with
    | some setting, _ => draft.takeSetting setting <| match rest with
      | [] => none
      | '=' :: text => some (String.ofList text)
      | text => some (String.ofList text)
    | none, some switch => do
      let draft ← draft.takeSwitch switch
      draft.takeShort rest
    | none, none => throw .unknownArgument

def takeInput (draft : Draft) (text : String) : Except UsageError Draft := do
  if draft.input.isSome then throw .unknownArgument
  return { ← draft.settle with input := some text }

/-- A word that is no option: the value that is waited for, or the input. -/
def takeWord (draft : Draft) (text : String) : Except UsageError Draft :=
  match draft.pending with
  | some (setting, none) => return { draft with pending := some (setting, some text) }
  | _ => draft.takeInput text

def take (draft : Draft) (argument : String) : Except UsageError Draft :=
  if draft.inputOnly then draft.takeInput argument
  else match argument.toList with
    | ['-', '-'] => return { draft with inputOnly := true }
    | '-' :: '-' :: body => draft.takeLong body
    | '-' :: letter :: letters => draft.takeShort (letter :: letters)
    | _ => draft.takeWord argument

/-- The arguments, once all words are read. -/
def finish (draft : Draft) : Except UsageError Arguments := do
  let draft ← draft.settle
  if draft.indent.isSome && draft.compact then throw .conflict
  let some input := draft.input | throw .missingInput
  return {
    input
    output := draft.output
    config := draft.config
    indent := draft.indent
    compact := draft.compact
    apiVersion := draft.apiVersion }

end Draft

/-- The arguments of a command line, without the name of the program. -/
def parse (words : List String) : Except UsageError Arguments := do
  (← words.foldlM Draft.take {}).finish

end Arguments

end RichDoc
