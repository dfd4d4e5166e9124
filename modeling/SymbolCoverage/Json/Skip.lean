import SymbolCoverage.Json.Literal
import SymbolCoverage.Json.Numeral

/-!
Skipping a value that nothing is kept of.  The brackets that are open stand in a
list, so values may nest to any depth.
-/

namespace SymbolCoverage.Json

inductive Bracket
  | array
  | object
deriving DecidableEq

namespace Bracket

def opening : Bracket → Char
  | .array => '['
  | .object => '\x7b'

def closing : Bracket → Char
  | .array => ']'
  | .object => '\x7d'

def ofOpening? (c : Char) : Option Bracket :=
  if c = opening .array then some .array
  else if c = opening .object then some .object
  else none

end Bracket

/-- Takes a name with both its quotes, and its colon. -/
def skipName : Reader Unit := fun text =>
  match next text with
  | none => .error .truncated
  | some p =>
    if p.value = '"' then do
      let name ← literal .free p.rest
      let colon ← token ':' name.rest
      return (colon.after name.shorter).after p.shorter
    else .error .malformed

/-- Takes a value without brackets, whose first character is `c`. -/
def skipScalar (c : Char) (rest : List Char) : Except Failure (Remaining rest) :=
  if c = 'n' then letters ['u', 'l', 'l'] rest
  else if c = 't' then letters ['r', 'u', 'e'] rest
  else if c = 'f' then letters ['a', 'l', 's', 'e'] rest
  else if c = '"' then (literal .free rest).map (·.remaining)
  else if c = '-' then (Numeral.read false true rest).map (·.remaining)
  else if c.isDigit then
    (Numeral.read false false (c :: rest)).map fun p => ⟨p.rest, Nat.le_of_lt_succ p.shorter⟩
  else .error .malformed

/-- Takes what stands between a comma or an opening bracket and the next value. -/
def enter (bracket : Bracket) (text : List Char) : Except Failure (Remaining text) :=
  match bracket with
  | .array => .ok (.all text)
  | .object => (skipName text).map (·.remaining)

/-- Whether a value comes next, or a value has just ended. -/
inductive SkipState
  | before
  | after
deriving DecidableEq

/-- How skipping goes on in `text`, inside which brackets. -/
structure SkipPoint (text : List Char) where
  state : SkipState
  brackets : List Bracket
  remaining : Remaining text

/-- Takes the start of a value, whose first character is `c`: all of it, or its
opening bracket and what stands before its first part. -/
def startValue (brackets : List Bracket) (c : Char) (rest : List Char) :
    Except Failure (SkipPoint rest) :=
  match Bracket.ofOpening? c with
  | none => (skipScalar c rest).map (⟨.after, brackets, ·⟩)
  | some bracket =>
    match next rest with
    | none => .error .truncated
    | some p =>
      if p.value = bracket.closing then .ok ⟨.after, brackets, p.remaining⟩
      else (enter bracket rest).map (⟨.before, bracket :: brackets, ·⟩)

/-- Skips to the end of the value inside whose open brackets the text starts. -/
def skipFrom (start : List Char) (state : SkipState) (brackets : List Bracket)
    (text : List Char) (h : text.length ≤ start.length) : Except Failure (Remaining start) :=
  match state, brackets with
  | .after, [] => .ok ⟨text, h⟩
  | .before, brackets =>
    match next text with
    | none => .error .truncated
    | some p =>
      match startValue brackets p.value p.rest with
      | .error e => .error e
      | .ok point =>
        have := p.shorter
        have := point.remaining.notLonger
        skipFrom start point.state point.brackets point.remaining.rest (by omega)
  | .after, bracket :: outer =>
    match next text with
    | none => .error .truncated
    | some p =>
      have := p.shorter
      if p.value = bracket.closing then skipFrom start .after outer p.rest (by omega)
      else if p.value = ',' then
        match enter bracket p.rest with
        | .error e => .error e
        | .ok r =>
          have := r.notLonger
          skipFrom start .before (bracket :: outer) r.rest (by omega)
      else .error .malformed
termination_by text.length

def skip : Reader Unit := fun text =>
  match next text with
  | none => .error .truncated
  | some p =>
    match startValue [] p.value p.rest with
    | .error e => .error e
    | .ok point =>
      (skipFrom point.remaining.rest point.state point.brackets point.remaining.rest
        (le_length point.remaining.rest)).map
        fun r => (point.remaining.trans r).giving () p.shorter

end SymbolCoverage.Json
