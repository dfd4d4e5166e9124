import SymbolCoverage.Text.Hex

/-!
Escapes inside a group of a symbol.  `$LT$` and its kin stand for a punctuation
character, `$u7b$` for the character with that code point, and `..` for `::`.
Whatever is no escape stands for itself.
-/

namespace SymbolCoverage.Symbol

/-- What a code between two `$` means. -/
inductive Escape
  | punctuation (char : Char)
  | codePoint (char : Char)
deriving DecidableEq

namespace Escape

def char : Escape → Char
  | .punctuation c => c
  | .codePoint c => c

def punctuationCodes : List (String × Char) :=
  [("SP", '@'), ("BP", '*'), ("RF", '&'), ("LT", '<'), ("GT", '>'), ("LP", '('), ("RP", ')'),
    ("C", ',')]

def punctuationName? (c : Char) : Option String :=
  (punctuationCodes.find? (·.2 == c)).map (·.1)

/-- The payload of a `u` code: one to four lower-case digits that spell the code
point of a character. -/
def payload? (digits : List Char) : Option Char :=
  if digits ≠ [] ∧ digits.length ≤ 4 ∧ digits.all Text.isLowerHex then
    (Text.hexNumber? digits).bind Text.scalar?
  else none

/-- The meaning of a code, or `none` if it is not recognised. -/
def ofCode? (code : List Char) : Option Escape :=
  match punctuationCodes.lookup (String.ofList code) with
  | some c => some (.punctuation c)
  | none =>
    match code with
    | 'u' :: digits => (payload? digits).map .codePoint
    | _ => none

/-- Splits the text after an opening `$` at the closing one, if there is one and
the code before it is recognised. -/
def splitCode? (text : List Char) : Option (Escape × List Char) :=
  match text.dropWhile (· != '$') with
  | [] => none
  | _ :: rest => (ofCode? (text.takeWhile (· != '$'))).map (·, rest)

theorem splitCode?_length {text rest : List Char} {e : Escape}
    (h : splitCode? text = some (e, rest)) : rest.length < text.length := by
  have hle := (List.dropWhile_sublist (· != '$') (l := text)).length_le
  unfold splitCode? at h
  split at h
  · simp at h
  · rename_i hd
    rw [hd, List.length_cons] at hle
    simp only [Option.map_eq_some_iff, Prod.mk.injEq] at h
    obtain ⟨_, _, _, rfl⟩ := h
    omega

/-- The text that an escaped text stands for.  Reads from the left, so of three
dots the first two are the escape. -/
def expand : List Char → List Char
  | [] => []
  | '.' :: '.' :: rest => ':' :: ':' :: expand rest
  | c :: rest =>
    if c = '$' then
      match h : splitCode? rest with
      | some (e, tail) =>
        have := splitCode?_length h
        e.char :: expand tail
      | none => c :: expand rest
    else c :: expand rest
termination_by text => text.length
decreasing_by all_goals simp only [List.length_cons]; omega

end Escape

/-- The text that an escaped text stands for. -/
def unescape (text : String) : String := .ofList (Escape.expand text.toList)

end SymbolCoverage.Symbol
