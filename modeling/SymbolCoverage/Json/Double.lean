/-!
Finite binary floating-point numbers of 64 bits, as exact values.  A number that
is no 64-bit integer is kept as the double that is read for it.
-/

namespace SymbolCoverage.Json

/-- A magnitude `mantissa * 2 ^ exponent`.  The mantissa has at most 53 bits, all
of them unless the exponent is the least one. -/
structure Magnitude where
  mantissa : Nat
  exponent : Int
deriving DecidableEq

structure Double where
  negative : Bool
  magnitude : Magnitude
deriving DecidableEq

namespace Magnitude

def leastExponent : Int := -1074

def greatestExponent : Int := 971

def zero : Magnitude := ⟨0, leastExponent⟩

/-- `num / den`, rounded to the nearest whole number, halves to even. -/
def roundedQuotient (num den : Nat) : Nat :=
  let q := num / den
  let twice := 2 * (num % den)
  if twice < den ∨ (twice = den ∧ q % 2 = 0) then q else q + 1

/-- The exponent of the first binary digit of `num / den`, for positive `num` and
`den`. -/
def leadingExponent (num den : Nat) : Int :=
  let e : Int := (Nat.log2 num : Int) - (Nat.log2 den : Int)
  if den * Nat.pow 2 e.toNat ≤ num * Nat.pow 2 (-e).toNat then e else e - 1

/-- The double nearest to `num / den`, or `none` if that is beyond all of them. -/
def nearest? (num den : Nat) : Option Magnitude :=
  if num = 0 then some zero
  else
    let q := max (leadingExponent num den - 52) leastExponent
    let m := roundedQuotient (num * Nat.pow 2 (-q).toNat) (den * Nat.pow 2 q.toNat)
    let x : Magnitude := if m = Nat.pow 2 53 then ⟨Nat.pow 2 52, q + 1⟩ else ⟨m, q⟩
    if x.exponent ≤ greatestExponent then some x else none

def num (x : Magnitude) : Nat := x.mantissa * Nat.pow 2 x.exponent.toNat

def den (x : Magnitude) : Nat := Nat.pow 2 (-x.exponent).toNat

def times? (x y : Magnitude) : Option Magnitude := nearest? (x.num * y.num) (x.den * y.den)

def over? (x y : Magnitude) : Option Magnitude := nearest? (x.num * y.den) (x.den * y.num)

def greatestPowerOfTen : Nat := 308

/-- Divides by the greatest power of ten again and again, and then by the last
power. -/
def shrink? (last : Nat) : Nat → Magnitude → Option Magnitude
  | 0, x => do x.over? (← nearest? (Nat.pow 10 last) 1)
  | steps + 1, x => do
    if x.mantissa = 0 then some zero
    else shrink? last steps (← x.over? (← nearest? (Nat.pow 10 greatestPowerOfTen) 1))

/-- The double that is read for `significand * 10 ^ exponent`: each factor is
rounded on its own, and so is the result. -/
def ofDecimal? (significand : Nat) (exponent : Int) : Option Magnitude := do
  let x ← nearest? significand 1
  let power := exponent.natAbs
  if exponent < 0 then
    let steps := (power - 1) / greatestPowerOfTen
    shrink? (power - steps * greatestPowerOfTen) steps x
  else if power ≤ greatestPowerOfTen then x.times? (← nearest? (Nat.pow 10 power) 1)
  else if significand = 0 then some zero
  else none

/-! ## Decimal text -/

/-- The exponent of the first decimal digit of a positive magnitude. -/
def leadingPower (x : Magnitude) : Int :=
  if x.den ≤ x.num then (Nat.toDigits 10 (x.num / x.den)).length - 1
  else
    let zeros := (List.range 400).find? (fun n => x.den ≤ x.num * Nat.pow 10 n)
    Int.negOfNat (zeros.getD 0)

def ofDigits? (digits : Nat) (power : Int) : Option Magnitude :=
  nearest? (digits * Nat.pow 10 power.toNat) (Nat.pow 10 (-power).toNat)

/-- A number of `count` digits that reads back as `x`, with its power of ten.
Of two neighbours that do, the nearer. -/
def digitsOfLength? (x : Magnitude) (count : Nat) : Option (Nat × Int) :=
  let power := x.leadingPower - (count - 1 : Int)
  let num := x.num * Nat.pow 10 (-power).toNat
  let den := x.den * Nat.pow 10 power.toNat
  let below := num / den
  let near := roundedQuotient num den
  let far := if near = below then below + 1 else below
  ([near, far].find? fun d => decide (ofDigits? d power = some x)).map (·, power)

/-- Drops zeros from the end of a run of digits and counts them. -/
def trimmed (digits : List Char) : List Char × Nat :=
  let kept := (digits.reverse.dropWhile (· == '0')).reverse
  (kept, digits.length - kept.length)

/-- The fewest digits that read back as `x`, with their power of ten. -/
def shortest (x : Magnitude) : List Char × Int :=
  let found := (List.range 17).findSome? fun n => x.digitsOfLength? (n + 1)
  let (number, power) := found.getD (x.mantissa, x.exponent)
  let (digits, zeros) := trimmed (Nat.toDigits 10 number)
  if digits = [] then (['0'], 0) else (digits, power + zeros)

/-- The text of a magnitude: positional with a point if the point falls from five
places before the first digit to sixteen after it, else with a signed exponent. -/
def text (x : Magnitude) : String :=
  let (digits, power) := x.shortest
  let point : Int := digits.length + power
  let zeros (n : Int) : List Char := List.replicate n.toNat '0'
  .ofList <|
    if 0 ≤ power ∧ point ≤ 16 then digits ++ zeros power ++ ['.', '0']
    else if 0 < point ∧ point ≤ 16 then
      digits.take point.toNat ++ ['.'] ++ digits.drop point.toNat
    else if -5 < point ∧ point ≤ 0 then ['0', '.'] ++ zeros (-point) ++ digits
    else
      let fraction := if digits.length = 1 then [] else '.' :: digits.drop 1
      let sign := if 0 < point then '+' else '-'
      digits.take 1 ++ fraction ++ ['e', sign] ++ Nat.toDigits 10 (point - 1).natAbs

end Magnitude

/-- The text of a double, which reads back as the double. -/
def Double.text (x : Double) : String :=
  (if x.negative then "-" else "") ++ x.magnitude.text

end SymbolCoverage.Json
