import SymbolCoverage.Text.Backtracking

/-!
Patterns of regular expressions: how they are written, which parts of a text they match, and
what a library that compiles written patterns promises.  Of the forms of patterns only those
are here that names of files need.
-/

namespace SymbolCoverage.Text

/-- Patterns, as items one behind the other.  A text stands for itself once it is escaped,
and so do plain characters as they are. -/
inductive Pattern
  | nothing
  | textStart (rest : Pattern)
  | textEnd (rest : Pattern)
  | plain (c : Char) (rest : Pattern)
  | literal (text : String) (rest : Pattern)
  | someOf (ranges : List (Char × Char)) (rest : Pattern)
  | optional (inner rest : Pattern)

/-- Whether a character lies in one of the ranges, ends included. -/
def InRanges (ranges : List (Char × Char)) (c : Char) : Prop :=
  ∃ range ∈ ranges, range.1 ≤ c ∧ c ≤ range.2

namespace Pattern

def rangeText (range : Char × Char) : String := .ofList [range.1, '-', range.2]

/-- A pattern as it is written. -/
def text (escape : String → String) : Pattern → String
  | nothing => ""
  | textStart rest => "^" ++ rest.text escape
  | textEnd rest => "$" ++ rest.text escape
  | plain c rest => .ofList [c] ++ rest.text escape
  | literal s rest => escape s ++ rest.text escape
  | someOf ranges rest => "[" ++ String.join (ranges.map rangeText) ++ "]+" ++ rest.text escape
  | optional inner rest => "(?:" ++ inner.text escape ++ ")?" ++ rest.text escape

/-- What is written as a plain character or as the end of a range is no special character. -/
def WellFormed : Pattern → Prop
  | nothing => True
  | textStart rest => rest.WellFormed
  | textEnd rest => rest.WellFormed
  | plain c rest => c ∉ specialCharacters ∧ rest.WellFormed
  | literal _ rest => rest.WellFormed
  | someOf ranges rest =>
    ranges ≠ [] ∧
      (∀ range ∈ ranges, range.1.isAlphanum ∧ range.2.isAlphanum ∧ range.1 ≤ range.2) ∧
        rest.WellFormed
  | optional inner rest => inner.WellFormed ∧ rest.WellFormed

/-- The pattern matches a part of a text, between what stands before and after it. -/
def Matches : Pattern → (before part after : List Char) → Prop
  | nothing, _, part, _ => part = []
  | textStart rest, before, part, after => before = [] ∧ rest.Matches before part after
  | textEnd rest, before, part, after =>
    part = [] ∧ after = [] ∧ rest.Matches before part after
  | plain c rest, before, part, after =>
    ∃ part', part = c :: part' ∧ rest.Matches (before ++ [c]) part' after
  | literal s rest, before, part, after =>
    ∃ part', part = s.toList ++ part' ∧ rest.Matches (before ++ s.toList) part' after
  | someOf ranges rest, before, part, after =>
    ∃ run part', run ≠ [] ∧ (∀ c ∈ run, InRanges ranges c) ∧ part = run ++ part' ∧
      rest.Matches (before ++ run) part' after
  | optional inner rest, before, part, after =>
    rest.Matches before part after ∨
      ∃ part₁ part₂, part = part₁ ++ part₂ ∧ inner.Matches before part₁ (part₂ ++ after) ∧
        rest.Matches (before ++ part₁) part₂ after

/-- The pattern matches some part of the text. -/
def Occurs (p : Pattern) (text : String) : Prop :=
  ∃ before part after, text.toList = before ++ part ++ after ∧ p.Matches before part after

end Pattern

/-- The documented behaviour: a compiled pattern tests whether it matches some part of a
text, where an escaped text stands for itself, and the start and the end are those of the whole
text.  Which patterns are refused is left open. -/
def PatternLibrary.Documented (library : PatternLibrary) : Prop :=
  ∀ p : Pattern, p.WellFormed → ∀ test, library.compile (p.text library.escape) = .ok test →
    ∀ text, test text = true ↔ p.Occurs text

end SymbolCoverage.Text
