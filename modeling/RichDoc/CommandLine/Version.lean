import RichDoc.Decimal.Numeral
import RichDoc.Export.Settings

/-!
# Versions on the command line

A version is written as three numbers with points between them.
-/

namespace RichDoc

open Pandoc (ApiVersion)

/-- Why a text is no version. -/
inductive VersionError where
  | shape (text : String)
  | component (text : String) (cause : Decimal.NumeralError)
deriving DecidableEq, Repr

def VersionError.message : VersionError → String
  | .shape text => "expected X.Y.Z, got '" ++ text ++ "'"
  | .component text cause => "invalid version component '" ++ text ++ "': " ++ cause.message

/-- One number of a version. -/
def versionNumber (digits : List Char) : Except VersionError Nat :=
  (Decimal.readNat maxVersionNumber digits).mapError (.component (String.ofList digits))

def parseApiVersion (text : String) : Except VersionError ApiVersion :=
  match text.toList.splitOn '.' with
  | [major, minor, patch] => do
    return ⟨← versionNumber major, ← versionNumber minor, ← versionNumber patch⟩
  | _ => .error (.shape text)

end RichDoc
