/-!
Hexadecimal digits: which characters are digits, the number they spell, and the
shortest lower-case spelling of a number.
-/

namespace SymbolCoverage.Text

def isLowerHex (c : Char) : Bool :=
  c.isDigit || ('a' ≤ c && c ≤ 'f')

/-- The value of a digit, in either case. -/
def hexDigit? (c : Char) : Option Nat :=
  if c.isDigit then some (c.toNat - '0'.toNat)
  else if 'a' ≤ c ∧ c ≤ 'f' then some (c.toNat - 'a'.toNat + 10)
  else if 'A' ≤ c ∧ c ≤ 'F' then some (c.toNat - 'A'.toNat + 10)
  else none

/-- The number that a run of digits spells, or `none` if a character is no
digit.  The empty run spells zero. -/
def hexNumber? (digits : List Char) : Option Nat :=
  digits.foldlM (fun n c => (hexDigit? c).map (16 * n + ·)) 0

/-- The lower-case spelling without leading zeros. -/
def hexSpelling (n : Nat) : List Char := Nat.toDigits 16 n

/-- The character with a given code point.  Surrogates name none. -/
def scalar? (n : Nat) : Option Char :=
  if n.isValidChar then some (Char.ofNat n) else none

end SymbolCoverage.Text
