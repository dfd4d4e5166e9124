import SymbolCoverage.Json.Reader
import SymbolCoverage.Text.Utf8

/-!
The strings of a JSON text.  Texts that are only skipped are held to the same
form, but their surrogates need not come in pairs.
-/

namespace SymbolCoverage.Json

/-- Whether the surrogates of a string must come in pairs. -/
inductive Surrogates
  | paired
  | free
deriving DecidableEq

def shortEscapes : List (Char × Char) :=
  [('"', '"'), ('\\', '\\'), ('/', '/'), ('b', '\x08'), ('f', '\x0c'), ('n', '\n'), ('r', '\r'),
    ('t', '\t')]

theorem length_lt_of_four (a b c d : Char) (rest : List Char) :
    rest.length < (a :: b :: c :: d :: rest).length := by
  simp only [List.length_cons]
  omega

/-- Takes four hexadecimal digits.  Fewer than four bytes are too few, whatever
they are. -/
def codeUnit : Reader Nat
  | a :: b :: c :: d :: rest =>
    match Text.hexNumber? [a, b, c, d] with
    | some n => .ok ⟨n, rest, length_lt_of_four a b c d rest⟩
    | none => .error .malformed
  | few => .error (if Text.utf8Length few < 4 then .truncated else .malformed)

def exactly (c : Char) : Reader Unit
  | [] => .error .truncated
  | d :: rest => if d = c then .ok (.ofChar () d rest) else .error .malformed

def isLowSurrogate (n : Nat) : Bool := 0xDC00 ≤ n && n ≤ 0xDFFF

def pairedCodePoint (high low : Nat) : Nat := 0x10000 + (high - 0xD800) * 0x400 + (low - 0xDC00)

/-- Takes the second half of a surrogate pair, which is an escape of its own. -/
def lowHalf (high : Nat) : Reader Char := fun text => do
  let slash ← exactly '\\' text
  let letter ← exactly 'u' slash.rest
  let low ← codeUnit letter.rest
  if isLowSurrogate low.value then
    match Text.scalar? (pairedCodePoint high low.value) with
    | some c => return ((low.map fun _ => c).after letter.shorter).after slash.shorter
    | none => .error .malformed
  else .error .malformed

/-- Takes the code point of a `u` escape, the second half of a pair included. -/
def codePoint (surrogates : Surrogates) : Reader Char := fun text =>
  match codeUnit text with
  | .error e => .error e
  | .ok p =>
    match Text.scalar? p.value, surrogates with
    | some c, _ => .ok (p.map fun _ => c)
    | none, .free => .ok (p.map fun _ => '\ufffd')
    | none, .paired =>
      if isLowSurrogate p.value then .error .malformed
      else (lowHalf p.value p.rest).map (·.after p.shorter)

/-- Takes the rest of an escape, after its backslash. -/
def escape (surrogates : Surrogates) : Reader Char
  | [] => .error .truncated
  | c :: rest =>
    match shortEscapes.lookup c with
    | some d => .ok (.ofChar d c rest)
    | none =>
      if c = 'u' then (codePoint surrogates rest).map (·.behind c) else .error .malformed

/-- Takes characters up to the closing quote, `read` being those taken so far, the
last one first. -/
def literalFrom (surrogates : Surrogates) (start : List Char) (read : List Char) :
    (text : List Char) → text.length ≤ start.length → Except Failure (Parsed String start)
  | [], _ => .error .truncated
  | c :: rest, h =>
    if c = '"' then .ok ⟨.ofList read.reverse, rest, h⟩
    else if c = '\\' then
      match escape surrogates rest with
      | .error e => .error e
      | .ok p =>
        have := p.shorter
        literalFrom surrogates start (p.value :: read) p.rest
          (by simp only [List.length_cons] at h; omega)
    else if c < ' ' then .error .malformed
    else literalFrom surrogates start (c :: read) rest
      (by simp only [List.length_cons] at h; omega)
termination_by text => text.length
decreasing_by all_goals simp only [List.length_cons]; omega

def literal (surrogates : Surrogates) : Reader String := fun text =>
  literalFrom surrogates text [] text (le_length text)

end SymbolCoverage.Json
