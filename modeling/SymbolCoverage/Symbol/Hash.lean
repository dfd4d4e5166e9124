import SymbolCoverage.Text.Hex

/-!
The hash of a symbol tells apart symbols that share a path.  It is kept as the
sixteen digits it is written with.
-/

namespace SymbolCoverage.Symbol

/-- Sixteen lower-case hexadecimal digits. -/
def isHashDigits (cs : List Char) : Bool :=
  cs.length == 16 && cs.all Text.isLowerHex

structure Hash where
  digits : String
  wellFormed : isHashDigits digits.toList = true
deriving DecidableEq

structure InvalidHash where
  text : String
deriving DecidableEq

def InvalidHash.message (e : InvalidHash) : String :=
  "invalid hash disambiguator '" ++ e.text ++ "' (expected 16 lowercase hex digits)"

namespace Hash

def ofChars? (cs : List Char) : Option Hash :=
  if h : isHashDigits cs then some ⟨.ofList cs, by simpa using h⟩ else none

def ofString (text : String) : Except InvalidHash Hash :=
  match ofChars? text.toList with
  | some hash => .ok hash
  | none => .error ⟨text⟩

instance : Ord Hash := ⟨compareOn digits⟩

instance : Std.TransOrd Hash := inferInstanceAs (Std.TransCmp (compareOn digits))

instance : Std.LawfulEqOrd Hash where
  eq_of_compare {a b} h := by
    have hd : a.digits = b.digits := Std.LawfulEqOrd.eq_of_compare h
    cases a; cases b; cases hd; rfl

end Hash
end SymbolCoverage.Symbol
