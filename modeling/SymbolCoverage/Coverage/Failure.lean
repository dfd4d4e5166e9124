import SymbolCoverage.Discovery.Error
import SymbolCoverage.Metadata.Basic
import SymbolCoverage.Symbol.Decoded

/-!
Why a check fails.
-/

namespace SymbolCoverage

inductive Failure
  | malformedSymbol (crate : String) (cause : Symbol.MalformedSymbol)
  | schemaViolation (crate : String) (cause : EntryFault)
  | integrityViolation (distinctSymbols indexedEntries : Nat)
  | discovery (cause : Discovery.Error)
deriving DecidableEq

namespace Failure

def kindName : Failure → String
  | .malformedSymbol .. => "MalformedSymbol"
  | .schemaViolation .. => "SchemaViolation"
  | .integrityViolation .. => "IntegrityViolation"
  | .discovery _ => "DiscoveryError"

def message : Failure → String
  | .malformedSymbol crate _ => "malformed symbol in crate '" ++ crate ++ "'"
  | .schemaViolation crate _ => "ill-formed functions table in crate '" ++ crate ++ "'"
  | .integrityViolation distinct indexed =>
    s!"present-item index lost entries: {distinct} distinct symbols but {indexed} index entries"
  | .discovery _ => "metadata discovery failed"

def causes : Failure → List String
  | .malformedSymbol _ cause => [cause.message]
  | .schemaViolation _ cause => [cause.message]
  | .integrityViolation .. => []
  | .discovery cause => cause.message :: cause.causes

end Failure
end SymbolCoverage
