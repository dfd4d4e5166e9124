import SymbolCoverage.Text.PatternLibrary
import SymbolCoverage.Text.Utf8

/-!
A library for patterns that searches by trying.  A written pattern is read from its end, and
each item is put in front of what must match behind it.
-/

namespace SymbolCoverage.Text

/-- What must match from a place on: whether the text starts here, and the text from here. -/
abbrev Goal := Bool → List Char → Bool

/-- The characters that do not stand for themselves outside of brackets. -/
def specialCharacters : List Char := "\\.+*?()|[]{}^$".toList

namespace Goal

def done : Goal := fun _ _ => true

def atStart (goal : Goal) : Goal := fun fresh rest => fresh && goal fresh rest

def atEnd (goal : Goal) : Goal := fun fresh rest => rest.isEmpty && goal fresh rest

def char (c : Char) (goal : Goal) : Goal
  | _, [] => false
  | _, d :: rest => c == d && goal false rest

def isInRanges (ranges : List (Char × Char)) (c : Char) : Bool :=
  ranges.any fun range => range.1 ≤ c && c ≤ range.2

def someOf (ranges : List (Char × Char)) (goal : Goal) : Goal := fun _ rest => run rest
where
  run : List Char → Bool
    | [] => false
    | c :: rest => isInRanges ranges c && (goal false rest || run rest)

def either (goal goal' : Goal) : Goal := fun fresh rest => goal fresh rest || goal' fresh rest

/-- Tries all places of a text, the first one first. -/
def found (goal : Goal) : Goal
  | fresh, [] => goal fresh []
  | fresh, c :: rest => goal fresh (c :: rest) || found goal false rest

/-- Reads a pattern from its end.  The first goal is what must match from here on, and each
group that ends further on has one more.  Inside of brackets, ranges have been read. -/
def read : Option (List (Char × Char)) → List Char → Option (List Goal)
  | some ranges, ']' :: '+' :: rest => (read none rest).map (List.modifyHead (someOf ranges))
  | some ranges, lower :: '-' :: upper :: rest => read (some (ranges ++ [(lower, upper)])) rest
  | some _, _ => none
  | none, [] => some [done]
  | none, '^' :: rest => (read none rest).map (List.modifyHead atStart)
  | none, '$' :: rest => (read none rest).map (List.modifyHead atEnd)
  | none, '\\' :: c :: rest => (read none rest).map (List.modifyHead (char c))
  | none, '[' :: rest => read (some []) rest
  | none, ')' :: '?' :: rest =>
    (read none rest).bind fun
      | goal :: goals => some (goal :: goal :: goals)
      | [] => none
  | none, '(' :: '?' :: ':' :: rest =>
    (read none rest).bind fun
      | inner :: goal :: goals => some (inner.either goal :: goals)
      | _ => none
  | none, c :: rest =>
    if c ∈ specialCharacters then none
    else (read none rest).map (List.modifyHead (char c))

end Goal

/-- The characters that are escaped.  Four of them are special only in some places. -/
def metaCharacters : List Char := specialCharacters ++ ['#', '&', '-', '~']

def escapeChar (c : Char) : List Char := if c ∈ metaCharacters then ['\\', c] else [c]

def escaped (text : String) : String := .ofList (text.toList.flatMap escapeChar)

/-- The bytes that are set aside for each byte of a written pattern. -/
def bytesPerByte : Nat := 32

def defaultSizeLimit : Nat := 10 * Nat.pow 2 20

/-- The library, which compiles no pattern that needs more than so many bytes. -/
def backtracking (sizeLimit : Nat) : PatternLibrary where
  escape := escaped
  compile text :=
    if sizeLimit < bytesPerByte * utf8Length text.toList then .error (.tooLarge sizeLimit)
    else
      match Goal.read none text.toList with
      | some [goal] => .ok fun text => goal.found true text.toList
      | _ => .error (.malformed ("unknown form of pattern: " ++ text))

abbrev defaultLibrary : PatternLibrary := backtracking defaultSizeLimit

end SymbolCoverage.Text
