import SymbolCoverage.Symbol.Hash

/-!
The envelope of a structured symbol: `_ZN`, a body, and a suffix of `17h`, the
hash and `E`.
-/

namespace SymbolCoverage.Symbol

def opening : List Char := ['_', 'Z', 'N']

def hashMarker : List Char := ['1', '7', 'h']

/-- Whether a symbol opens as a structured one.  The rest of its envelope may
still be missing. -/
def isOpened (symbol : String) : Bool := opening.isPrefixOf symbol.toList

def suffix (hash : Hash) : List Char := hashMarker ++ hash.digits.toList ++ ['E']

def suffixLength : Nat := 20

theorem length_suffix (hash : Hash) : (suffix hash).length = suffixLength := by
  have h := hash.wellFormed
  simp only [isHashDigits, Bool.and_eq_true, beq_iff_eq] at h
  simp [suffix, hashMarker, suffixLength, h.1]

def hashOfSuffix? (cs : List Char) : Option Hash :=
  if hashMarker.isPrefixOf cs ∧ cs.drop 19 = ['E'] then Hash.ofChars? ((cs.drop 3).take 16)
  else none

structure Envelope where
  body : List Char
  hash : Hash

/-- Takes a symbol apart.  The suffix has a fixed length, so it is cut from the
end whatever the body holds. -/
def Envelope.ofChars? (symbol : List Char) : Option Envelope :=
  if opening.isPrefixOf symbol then
    let rest := symbol.drop opening.length
    if suffixLength ≤ rest.length then
      let cut := rest.length - suffixLength
      (hashOfSuffix? (rest.drop cut)).map (⟨rest.take cut, ·⟩)
    else none
  else none

end SymbolCoverage.Symbol
