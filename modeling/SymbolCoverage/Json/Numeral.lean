import SymbolCoverage.Json.Reader
import SymbolCoverage.Json.Value

/-!
The numbers of a JSON text.
-/

namespace SymbolCoverage.Json

structure Numeral where
  negative : Bool
  whole : List Char
  fraction : List Char
  exponent : Option Int

namespace Numeral

/-- What is wrong with a text that ends, or goes on, where a digit must stand.
Numbers that are only skipped count as malformed when they end too early. -/
def digitFault (kept : Bool) : List Char → Failure
  | [] => if kept then .truncated else .malformed
  | _ => .malformed

def afterDigits : (text : List Char) → Remaining text
  | [] => .all []
  | c :: rest => if c.isDigit then (afterDigits rest).behind c else .all (c :: rest)

def digits (text : List Char) : List Char := text.takeWhile Char.isDigit

/-- Takes the whole part: a lone zero, or digits that start with another. -/
def takeWhole (kept : Bool) : Reader (List Char)
  | [] => .error (digitFault kept [])
  | c :: rest =>
    if c = '0' then
      if digits rest = [] then .ok (.ofChar [c] c rest) else .error .malformed
    else if c.isDigit then
      .ok ((afterDigits rest).giving (c :: digits rest) (Parsed.ofChar () c rest).shorter)
    else .error .malformed

/-- The digits of a fraction, if a point comes next, and what follows. -/
def takeFraction (kept : Bool) :
    (text : List Char) → Except Failure (List Char × Remaining text)
  | [] => .ok ([], .all [])
  | c :: rest =>
    if c = '.' then
      if digits rest = [] then .error (digitFault kept rest)
      else .ok (digits rest, (afterDigits rest).behind c)
    else .ok ([], .all (c :: rest))

def takeSign : (text : List Char) → Bool × Remaining text
  | [] => (false, .all [])
  | c :: rest =>
    if c = '+' then (false, (Remaining.all rest).behind c)
    else if c = '-' then (true, (Remaining.all rest).behind c)
    else (false, .all (c :: rest))

def takeExponent (kept : Bool) :
    (text : List Char) → Except Failure (Option Int × Remaining text)
  | [] => .ok (none, .all [])
  | c :: rest =>
    if c = 'e' ∨ c = 'E' then
      let (negative, signed) := takeSign rest
      if digits signed.rest = [] then .error (digitFault kept signed.rest)
      else
        let n : Int := Nat.ofDigitChars 10 (digits signed.rest) 0
        .ok (some (if negative then -n else n), (signed.trans (afterDigits signed.rest)).behind c)
    else .ok (none, .all (c :: rest))

/-- Takes a number, after its minus if it has one. -/
def read (kept negative : Bool) : Reader Numeral := fun text => do
  let whole ← takeWhole kept text
  let (fraction, r) ← takeFraction kept whole.rest
  let (exponent, s) ← takeExponent kept r.rest
  return (r.trans s).giving ⟨negative, whole.value, fraction, exponent⟩ whole.shorter

/-- Significands and integers have 64 bits. -/
def limit : Nat := Nat.pow 2 64

/-- Appends a digit to a significand, if it still fits. -/
def extend? (n : Nat) (c : Char) : Option Nat :=
  let m := Nat.ofDigitChars 10 [c] n
  if m < limit then some m else none

/-- The leading whole digits that fit, and how many do not. -/
def wholeSignificand (n : Nat) : List Char → Nat × Nat
  | [] => (n, 0)
  | c :: rest =>
    match extend? n c with
    | some m => wholeSignificand m rest
    | none => (n, rest.length + 1)

/-- Appends the leading digits of the fraction that fit, and counts them. -/
def fractionSignificand (n used : Nat) : List Char → Nat × Nat
  | [] => (n, used)
  | c :: rest =>
    match extend? n c with
    | some m => fractionSignificand m (used + 1) rest
    | none => (n, used)

/-- The double that a number is read as, from the digits that fit a significand. -/
def double? (n : Numeral) : Option Double :=
  let (w, dropped) := wholeSignificand 0 n.whole
  let (s, used) := fractionSignificand w 0 n.fraction
  (Magnitude.ofDecimal? s (n.exponent.getD 0 + dropped - used)).map (⟨n.negative, ·⟩)

/-- The integer that a number is, if it is written without point and exponent and
fits 64 bits.  Minus zero is none. -/
def integer? (n : Numeral) : Option Int :=
  if n.fraction ≠ [] ∨ n.exponent ≠ none then none
  else
    let m := Nat.ofDigitChars 10 n.whole 0
    if n.negative then
      if 0 < m ∧ m ≤ limit / 2 then some (-m) else none
    else if m < limit then some m else none

/-- The value of a number.  Beyond all doubles there is none. -/
def value? (n : Numeral) : Option Number :=
  match n.integer? with
  | some i => some (.integer i)
  | none => n.double?.map .double

end Numeral

def number (negative : Bool) : Reader Number := fun text =>
  match Numeral.read true negative text with
  | .error e => .error e
  | .ok p =>
    match p.value.value? with
    | some n => .ok (p.map fun _ => n)
    | none => .error .malformed

end SymbolCoverage.Json
