import RichDoc.CommandLine.Run

/-!
# The command

The command line in the real world: files, standard streams and the
environment. Everything it decides is decided in `CommandLine/Run`.
-/

namespace RichDoc

partial def readAll (stream : IO.FS.Stream) (text : String) : IO String := do
  let line ← stream.getLine
  if line.isEmpty then return text else readAll stream (text ++ line)

/-- What an action yields, or nothing when it fails. -/
def attempt (action : IO α) : IO (Option α) := do
  try return some (← action) catch _ => return none

def realSystem : System IO where
  lookupVariable name := IO.getEnv name
  exists? path := return (← attempt (IO.FS.realPath path)).isSome
  readFile path := attempt (IO.FS.readFile path)
  writeFile path text := return (← attempt (IO.FS.writeFile path text)).isSome
  readInput := attempt (do readAll (← IO.getStdin) "")
  writeOutput text := do
    let output ← IO.getStdout
    output.putStr text
    output.flush

def usage : String :=
  "Export editor JSON documents to Pandoc JSON\n\n"
    ++ "Usage: [OPTIONS] <INPUT>\n\n"
    ++ "  INPUT                  Editor document as JSON, or - for stdin\n"
    ++ "  -o, --output OUTPUT    Write Pandoc JSON here instead of stdout\n"
    ++ "  -c, --config CONFIG    Config file\n"
    ++ "      --indent N         Pretty-print with this many spaces\n"
    ++ "      --compact          Write compact JSON even if the config sets an indent\n"
    ++ "      --api-version X.Y.Z  Pandoc API version to declare\n"

def UsageError.message : UsageError → String
  | .unknownArgument => "unexpected argument"
  | .unwantedValue => "unexpected value for an option"
  | .missingValue => "a value is required for an option"
  | .malformedValue => "invalid value for an option"
  | .conflict => "options cannot be used together"
  | .missingInput => "the input is missing"
  | .helpRequested => usage
  | .versionRequested => "1.0.0"

end RichDoc

def main (words : List String) : IO UInt32 := do
  match RichDoc.Arguments.parse words with
  | .error .helpRequested => IO.println RichDoc.usage; return 0
  | .error .versionRequested => IO.println RichDoc.UsageError.versionRequested.message; return 0
  | .error problem => IO.eprintln ("error: " ++ problem.message); return 2
  | .ok arguments =>
    match ← (RichDoc.run RichDoc.realSystem arguments).run with
    | .ok () => return 0
    | .error problem => IO.eprintln ("Error: " ++ problem.message); return 1
