import SymbolCoverage.Json.Read
import SymbolCoverage.Symbol.Hash

/-!
Reading hashes from JSON texts, where they stand as strings.
-/

namespace SymbolCoverage.Symbol.Hash

def reader : Json.Reader Hash :=
  Json.Reader.check Json.string fun text => (Hash.ofString text).mapError (·.message)

def ofJson (text : String) : Except Json.Failure Hash := Json.readAll reader text

end SymbolCoverage.Symbol.Hash
