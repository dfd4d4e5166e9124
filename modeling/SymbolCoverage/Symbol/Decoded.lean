import SymbolCoverage.Symbol.Envelope
import SymbolCoverage.Symbol.Group
import SymbolCoverage.Symbol.Key

/-!
Decoding: a symbol in the envelope gives a path and a hash, any other symbol is
kept verbatim, and an envelope around a bad body is an error.
-/

namespace SymbolCoverage.Symbol

inductive Decoded
  | mangled (path : Path) (hash : Hash)
  | verbatim (symbol : String)
deriving DecidableEq

namespace Decoded

def key : Decoded → Key
  | .mangled path _ => .path path
  | .verbatim symbol => .raw symbol

def hash? : Decoded → Option Hash
  | .mangled _ hash => some hash
  | .verbatim _ => none

end Decoded

structure MalformedSymbol where
  symbol : String
  reason : Malformation
deriving DecidableEq

def MalformedSymbol.message (e : MalformedSymbol) : String :=
  "malformed symbol '" ++ e.symbol ++ "': " ++ e.reason.message

def decode (symbol : String) : Except MalformedSymbol Decoded :=
  match Envelope.ofChars? symbol.toList with
  | none => .ok (.verbatim symbol)
  | some envelope =>
    match segmentsOfBody envelope.body with
    | .ok segments => .ok (.mangled ⟨segments⟩ envelope.hash)
    | .error reason => .error ⟨symbol, reason⟩

end SymbolCoverage.Symbol
