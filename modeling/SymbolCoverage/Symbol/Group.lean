import SymbolCoverage.Symbol.Escape
import SymbolCoverage.Text.Utf8

/-!
The body of a structured symbol is a sequence of groups.  A group is a decimal
length and that many characters.  One `E` may follow the last group.
-/

namespace SymbolCoverage.Symbol

/-- Why a body is no sequence of groups.  Offsets count bytes from the start of
the body. -/
inductive Malformation
  | emptyBody
  | missingLength (offset : Nat)
  | lengthOverflow (offset : Nat)
  | groupOverrun (offset declared remaining : Nat)
deriving DecidableEq

def Malformation.message : Malformation → String
  | .emptyBody => "symbol body is empty"
  | .missingLength offset => s!"expected a group length at body offset {offset}"
  | .lengthOverflow offset => s!"group length at body offset {offset} is too large"
  | .groupOverrun offset declared remaining =>
    s!"group at body offset {offset} declares {declared} characters but only {remaining} remain"

namespace Group

/-- Lengths are numbers of 64 bits. -/
def lengthLimit : Nat := Nat.pow 2 64

/-- What is read off the front of a body: the digits of the length, the text they
announce, and what follows. -/
structure Split where
  digits : List Char
  text : List Char
  rest : List Char

/-- Splits the first group off.  The length takes every digit there is. -/
def split (offset : Nat) (body : List Char) : Except Malformation Split :=
  let digits := body.takeWhile Char.isDigit
  let tail := body.dropWhile Char.isDigit
  if digits = [] ∨ digits.head? = some '0' then .error (.missingLength offset)
  else
    let declared := Nat.ofDigitChars 10 digits 0
    if lengthLimit ≤ declared then .error (.lengthOverflow offset)
    else if tail.length < declared then .error (.groupOverrun offset declared tail.length)
    else .ok ⟨digits, tail.take declared, tail.drop declared⟩

theorem split_append {offset : Nat} {body : List Char} {s : Split}
    (h : split offset body = .ok s) : s.digits ++ s.text ++ s.rest = body := by
  unfold split at h
  simp only at h
  split at h
  · cases h
  · split at h
    · cases h
    · split at h
      · cases h
      · cases h
        simp [List.append_assoc, List.take_append_drop, List.takeWhile_append_dropWhile]

theorem split_digits {offset : Nat} {body : List Char} {s : Split}
    (h : split offset body = .ok s) : s.digits ≠ [] := by
  unfold split at h
  simp only at h
  split at h
  · cases h
  · rename_i hd
    split at h
    · cases h
    · split at h
      · cases h
      · cases h
        exact fun h => hd (.inl h)

theorem split_length {offset : Nat} {body : List Char} {s : Split}
    (h : split offset body = .ok s) : s.rest.length < body.length := by
  have hd := List.length_pos_iff.2 (split_digits h)
  rw [← split_append h]
  simp only [List.length_append]
  omega

/-- The texts of the groups from `offset` on.  The closing `E` ends the body. -/
def texts (offset : Nat) (body : List Char) : Except Malformation (List (List Char)) :=
  if body = [] ∨ body = ['E'] then .ok []
  else
    match h : split offset body with
    | .error reason => .error reason
    | .ok s =>
      have := split_length h
      (texts (offset + Text.utf8Length s.digits + Text.utf8Length s.text) s.rest).map (s.text :: ·)
termination_by body.length

/-- The segment that a group's text stands for.  One underscore in front keeps
the length apart from a text that would start with a digit, and is dropped. -/
def segment : List Char → String
  | '_' :: text => .ofList (Escape.expand text)
  | text => .ofList (Escape.expand text)

end Group

/-- The segments of a body, which must hold at least one group. -/
def segmentsOfBody (body : List Char) : Except Malformation (List String) :=
  if body = [] ∨ body = ['E'] then .error .emptyBody
  else (Group.texts 0 body).map (·.map Group.segment)

end SymbolCoverage.Symbol
