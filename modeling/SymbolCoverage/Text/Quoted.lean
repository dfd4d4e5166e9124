import SymbolCoverage.Text.Hex
import SymbolCoverage.Text.Shown

/-!
Quoted texts and characters, as diagnostics show them: a backslash before quote
and backslash, names for the common controls, and code points for the other
characters that are not shown as themselves.
-/

namespace SymbolCoverage.Text

def quotedForm (quote c : Char) : List Char :=
  if c = quote ∨ c = '\\' then ['\\', c]
  else if c = '\n' then ['\\', 'n']
  else if c = '\r' then ['\\', 'r']
  else if c = '\t' then ['\\', 't']
  else if c = '\x00' then ['\\', '0']
  else if isShown c then [c]
  else ['\\', 'u', '\x7b'] ++ hexSpelling c.toNat ++ ['\x7d']

def quoted (text : String) : String :=
  .ofList (['"'] ++ text.toList.flatMap (quotedForm '"') ++ ['"'])

def quotedChar (c : Char) : String :=
  .ofList (['\x27'] ++ quotedForm '\x27' c ++ ['\x27'])

end SymbolCoverage.Text
