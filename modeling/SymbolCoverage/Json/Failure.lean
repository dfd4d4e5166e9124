import SymbolCoverage.Json.Double
import SymbolCoverage.Text.Quoted

/-!
Why a text was refused: it is no JSON text, it ends too early, or it does not fit
what was to be read.
-/

namespace SymbolCoverage.Json

/-- What stands in the text where something else was expected. -/
inductive Found
  | null
  | bool (value : Bool)
  | integer (value : Int)
  | double (value : Double)
  | string (text : String)
  | sequence
  | map
deriving DecidableEq

def Found.describe : Found → String
  | .null => "null"
  | .bool b => s!"boolean `{b}`"
  | .integer n => s!"integer `{n}`"
  | .double x => "floating point `" ++ x.text ++ "`"
  | .string text => "string " ++ Text.quoted text
  | .sequence => "sequence"
  | .map => "map"

/-- How a text does not fit what was to be read. -/
inductive Mismatch
  | wrongType (found : Found) (expected : String)
  | wrongLength (length : Nat) (expected : String)
  | unknownVariant (name : String) (known : List String)
  | duplicateField (name : String)
  | missingField (name : String)
  | refused (reason : String)
deriving DecidableEq

def Mismatch.message : Mismatch → String
  | .wrongType found expected => "invalid type: " ++ found.describe ++ ", expected " ++ expected
  | .wrongLength length expected => s!"invalid length {length}, expected " ++ expected
  | .unknownVariant name known =>
    "unknown variant `" ++ name ++ "`, expected " ++
      " or ".intercalate (known.map fun n => "`" ++ n ++ "`")
  | .duplicateField name => "duplicate field `" ++ name ++ "`"
  | .missingField name => "missing field `" ++ name ++ "`"
  | .refused reason => reason

inductive Failure
  | malformed
  | truncated
  | mismatch (cause : Mismatch)
deriving DecidableEq

def Failure.message : Failure → String
  | .malformed => "the text is not JSON"
  | .truncated => "the text ends too early"
  | .mismatch cause => cause.message

end SymbolCoverage.Json
