import SymbolCoverage.Symbol.Envelope
import SymbolCoverage.Symbol.Escape
import SymbolCoverage.Symbol.Path
import SymbolCoverage.Text.Quoted

/-!
Encoding: the canonical spelling of a path and a hash as a structured symbol.
-/

namespace SymbolCoverage.Symbol

/-- Why a path has no spelling.  Positions count segments from zero. -/
inductive EncodeError
  | emptyPath
  | emptySegment (index : Nat)
  | unencodable (index : Nat) (char : Char)
deriving DecidableEq

def EncodeError.message : EncodeError → String
  | .emptyPath => "cannot encode an empty path"
  | .emptySegment index => s!"segment {index} is empty"
  | .unencodable index c =>
    s!"segment {index} contains unencodable character " ++ Text.quotedChar c

namespace Escape

/-- The last code point that has a code. -/
def codePointLimit : Nat := 0xFFFF

def isPlain (c : Char) : Bool := c.isAlphanum || c == '_' || c == ':'

def spelling? (c : Char) : Option (List Char) :=
  if isPlain c then some [c]
  else
    match punctuationName? c with
    | some name => some ('$' :: name.toList ++ ['$'])
    | none =>
      if c.toNat ≤ codePointLimit then some ('$' :: 'u' :: Text.hexSpelling c.toNat ++ ['$'])
      else none

/-- The escaped spelling of a segment, or the first character that has none.
Colons are paired from the left. -/
def escape : List Char → Except Char (List Char)
  | [] => .ok []
  | ':' :: ':' :: rest => (escape rest).map (['.', '.'] ++ ·)
  | c :: rest =>
    match spelling? c with
    | none => .error c
    | some cs => (escape rest).map (cs ++ ·)

end Escape

namespace Group

/-- Puts an underscore before a text that starts with one or with a digit. -/
def guarded (text : List Char) : List Char :=
  match text.head? with
  | some c => if c = '_' ∨ c.isDigit then '_' :: text else text
  | none => text

def spelled (text : List Char) : List Char := Nat.toDigits 10 text.length ++ text

end Group

/-- The groups of the segments, the first of which stands at `index`. -/
def encodeSegments (index : Nat) : List String → Except EncodeError (List Char)
  | [] => .ok []
  | segment :: rest =>
    if segment.toList = [] then .error (.emptySegment index)
    else
      match Escape.escape segment.toList with
      | .error c => .error (.unencodable index c)
      | .ok text =>
        (encodeSegments (index + 1) rest).map (Group.spelled (Group.guarded text) ++ ·)

def encode (path : Path) (hash : Hash) : Except EncodeError String :=
  if path.segments = [] then .error .emptyPath
  else
    (encodeSegments 0 path.segments).map fun body =>
      .ofList (opening ++ body ++ suffix hash)

end SymbolCoverage.Symbol
