/-!
Libraries for regular expressions.  A library escapes texts, so that they stand for
themselves, and compiles written patterns into tests of texts.
-/

namespace SymbolCoverage.Text

/-- Why a written pattern is not compiled. -/
inductive PatternFault
  | malformed (explanation : String)
  | tooLarge (sizeLimit : Nat)
deriving DecidableEq

def PatternFault.message : PatternFault → String
  | .malformed explanation => explanation
  | .tooLarge sizeLimit => s!"Compiled regex exceeds size limit of {sizeLimit} bytes."

structure PatternLibrary where
  escape : String → String
  compile : String → Except PatternFault (String → Bool)

end SymbolCoverage.Text
