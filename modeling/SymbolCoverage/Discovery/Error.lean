import SymbolCoverage.Disk.Basic
import SymbolCoverage.Json.Failure
import SymbolCoverage.Text.PatternLibrary

/-!
Why a discovery ends without documents.
-/

namespace SymbolCoverage.Discovery

inductive Error
  | noCandidates (name searched : String)
  | ambiguous (name : String) (candidates : List String)
  | invalidName (name : String) (cause : Text.PatternFault)
  | unreadable (path : String) (cause : Disk.Error)
  | invalidDocument (path : String) (cause : Json.Failure)
deriving DecidableEq

namespace Error

def message : Error → String
  | .noCandidates name searched =>
    "no metadata file for crate '" ++ name ++ "' found in " ++ searched
  | .ambiguous name candidates =>
    "non-unique metadata files for crate '" ++ name ++ "': " ++
      ", ".intercalate (candidates.map fun path => "'" ++ path ++ "'")
  | .invalidName name cause => "invalid crate name '" ++ name ++ "': " ++ cause.message
  | .unreadable path cause => "io error reading " ++ path ++ ": " ++ cause.message
  | .invalidDocument path cause => "invalid metadata in " ++ path ++ ": " ++ cause.message

/-- The message of the error behind this one. -/
def causes : Error → List String
  | .noCandidates .. => []
  | .ambiguous .. => []
  | .invalidName _ cause => [cause.message]
  | .unreadable _ cause => [cause.message]
  | .invalidDocument _ cause => [cause.message]

end Error

end SymbolCoverage.Discovery
