import Mathlib.Data.List.TakeWhile
import SymbolCoverage.Json.Printer
import SymbolCoverage.Proofs.Json.Reading
import SymbolCoverage.Proofs.Symbol.RoundTrip

/-!
How numbers are spelled.  A number is taken off the front of a text exactly if it is
spelled there, each run of digits up to the first character that is none.  The printer
writes a spelling of every integer of 64 bits.
-/

namespace SymbolCoverage.Json

variable {text rest : List Char} {n : Nat}

namespace Numeral

variable {ds : List Char} {negative : Bool}

/-! ## Spellings -/

/-- Digits behind which no digit stands. -/
inductive DigitsSpelled : Spelling (List Char)
  | mk {ds rest : List Char} :
    ds ≠ [] → (∀ c ∈ ds, c.isDigit = true) → digits rest = [] → DigitsSpelled ds (ds ++ rest) rest

inductive WholeSpelled : Spelling (List Char)
  | zero {rest : List Char} : digits rest = [] → WholeSpelled ['0'] ('0' :: rest) rest
  | positive {c : Char} {ds text rest : List Char} :
    c ≠ '0' → DigitsSpelled (c :: ds) text rest → WholeSpelled (c :: ds) text rest

inductive FractionSpelled : Spelling (List Char)
  | none {text : List Char} : text.head? ≠ some '.' → FractionSpelled [] text text
  | point {ds text rest : List Char} :
    DigitsSpelled ds text rest → FractionSpelled ds ('.' :: text) rest

/-- The sign of an exponent, true for a minus. -/
inductive SignSpelled : Spelling Bool
  | none {text : List Char} :
    text.head? ≠ some '+' → text.head? ≠ some '-' → SignSpelled false text text
  | plus {rest : List Char} : SignSpelled false ('+' :: rest) rest
  | minus {rest : List Char} : SignSpelled true ('-' :: rest) rest

inductive ExponentSpelled : Spelling (Option Int)
  | none {text : List Char} :
    text.head? ≠ some 'e' → text.head? ≠ some 'E' → ExponentSpelled none text text
  | power {c : Char} {negative : Bool} {ds text behind rest : List Char} :
    c = 'e' ∨ c = 'E' → SignSpelled negative text behind → DigitsSpelled ds behind rest →
      ExponentSpelled
        (some (if negative then -(Nat.ofDigitChars 10 ds 0 : Int) else Nat.ofDigitChars 10 ds 0))
        (c :: text) rest

/-- A number, after its minus if it has one. -/
inductive NumeralSpelled (negative : Bool) : Spelling Numeral
  | mk {whole fraction text point power rest : List Char} {exponent : Option Int} :
    WholeSpelled whole text point → FractionSpelled fraction point power →
      ExponentSpelled exponent power rest →
        NumeralSpelled negative ⟨negative, whole, fraction, exponent⟩ text rest

/-! ## Runs of digits -/

theorem rest_afterDigits (text : List Char) :
    (afterDigits text).rest = text.dropWhile Char.isDigit := by
  induction text with
  | nil => rfl
  | cons c text ih =>
    rw [afterDigits, List.dropWhile_cons]
    split
    · exact ih
    · rfl

theorem digits_append_rest (text : List Char) : digits text ++ (afterDigits text).rest = text := by
  rw [rest_afterDigits]
  exact List.takeWhile_append_dropWhile

theorem digits_afterDigits (text : List Char) : digits (afterDigits text).rest = [] := by
  rw [rest_afterDigits, digits, List.takeWhile_eq_nil_iff]
  exact List.dropWhile_get_zero_not Char.isDigit text

theorem digits_append (hds : ∀ c ∈ ds, c.isDigit = true) (hrest : digits rest = []) :
    digits (ds ++ rest) = ds ∧ (afterDigits (ds ++ rest)).rest = rest := by
  have hdigits : digits (ds ++ rest) = ds := by
    rw [digits, List.takeWhile_append_of_pos hds, ← digits, hrest, List.append_nil]
  have hsplit := digits_append_rest (ds ++ rest)
  rw [hdigits] at hsplit
  exact ⟨hdigits, List.append_cancel_left hsplit⟩

theorem digitsSpelled_iff :
    DigitsSpelled ds text rest ↔
      ds ≠ [] ∧ digits text = ds ∧ (afterDigits text).rest = rest := by
  constructor
  · intro h
    obtain ⟨hnil, hds, hrest⟩ := h
    exact ⟨hnil, digits_append hds hrest⟩
  · intro h
    obtain ⟨hnil, rfl, rfl⟩ := h
    have hall : ∀ c ∈ digits text, c.isDigit = true := fun c hc => List.mem_takeWhile_imp hc
    have hspelled := DigitsSpelled.mk hnil hall (digits_afterDigits text)
    rwa [digits_append_rest] at hspelled

theorem digits_cons_of_isDigit {c : Char} (hc : c.isDigit = true) (text : List Char) :
    digits (c :: text) = c :: digits text ∧
      (afterDigits (c :: text)).rest = (afterDigits text).rest := by
  rw [digits, List.takeWhile_cons, if_pos hc, afterDigits, if_pos hc]
  exact ⟨rfl, rfl⟩

/-! ## Numbers are read exactly as they are spelled -/

theorem reads_takeWhole_iff (kept : Bool) :
    Reads (takeWhole kept) text ds rest ↔ WholeSpelled ds text rest := by
  constructor
  · intro h
    obtain ⟨hlt, hread⟩ := h
    cases text with
    | nil => cases hread
    | cons c text =>
      rw [takeWhole] at hread
      split at hread
      next hzero =>
        subst hzero
        split at hread
        next hdigits =>
          cases hread
          exact .zero hdigits
        next => cases hread
      next hzero =>
        split at hread
        next hc =>
          cases hread
          obtain ⟨hdigits, hafter⟩ := digits_cons_of_isDigit hc text
          exact .positive hzero (digitsSpelled_iff.mpr ⟨by nofun, hdigits, hafter⟩)
        next => cases hread
  · intro h
    cases h with
    | zero hdigits => exact ⟨Nat.lt_succ_self _, by rw [takeWhole, if_pos rfl, if_pos hdigits]; rfl⟩
    | @positive c ds _ _ hzero hspelled =>
      cases hspelled with
      | mk _ hall hrest =>
        rw [List.forall_mem_cons] at hall
        obtain ⟨hdigits, hafter⟩ := digits_append hall.2 hrest
        have hlt : rest.length < (c :: (ds ++ rest)).length := by
          rw [List.length_cons, List.length_append]
          omega
        refine ⟨hlt, ?_⟩
        show takeWhole kept (c :: (ds ++ rest)) = .ok ⟨c :: ds, rest, _⟩
        rw [takeWhole, if_neg hzero, if_pos hall.1]
        simp only [Remaining.giving, hdigits, hafter]

theorem takeFraction_iff (kept : Bool) :
    (∃ r, takeFraction kept text = .ok (ds, r) ∧ r.rest = rest) ↔ FractionSpelled ds text rest := by
  constructor
  · intro h
    obtain ⟨r, hread, rfl⟩ := h
    cases text with
    | nil =>
      cases hread
      exact .none (by nofun)
    | cons c text =>
      rw [takeFraction] at hread
      split at hread
      next hpoint =>
        subst hpoint
        split at hread
        next => cases hread
        next hdigits =>
          cases hread
          exact .point (digitsSpelled_iff.mpr ⟨hdigits, rfl, rfl⟩)
      next hpoint =>
        cases hread
        exact .none (fun h => hpoint (Option.some.inj h))
  · intro h
    cases h with
    | none hpoint =>
      cases text with
      | nil => exact ⟨_, rfl, rfl⟩
      | cons c text =>
        have hc : c ≠ '.' := fun h => hpoint (congrArg some h)
        exact ⟨_, by rw [takeFraction, if_neg hc], rfl⟩
    | point hspelled =>
      obtain ⟨hnil, rfl, rfl⟩ := digitsSpelled_iff.mp hspelled
      exact ⟨_, by rw [takeFraction, if_pos rfl, if_neg hnil], rfl⟩

theorem takeSign_spelled (text : List Char) :
    SignSpelled (takeSign text).1 text (takeSign text).2.rest := by
  cases text with
  | nil => exact .none (by nofun) (by nofun)
  | cons c text =>
    rw [takeSign]
    split
    next hplus =>
      subst hplus
      exact .plus
    next hplus =>
      split
      next hminus =>
        subst hminus
        exact .minus
      next hminus =>
        exact .none (fun h => hplus (Option.some.inj h)) (fun h => hminus (Option.some.inj h))

theorem SignSpelled.unique {sign sign' : Bool} {rest' : List Char} (h : SignSpelled sign text rest)
    (h' : SignSpelled sign' text rest') : sign = sign' ∧ rest = rest' := by
  cases h with
  | none hplus hminus =>
    cases h' with
    | none => exact ⟨rfl, rfl⟩
    | plus => exact absurd rfl hplus
    | minus => exact absurd rfl hminus
  | plus =>
    cases h' with
    | none hplus => exact absurd rfl hplus
    | plus => exact ⟨rfl, rfl⟩
  | minus =>
    cases h' with
    | none _ hminus => exact absurd rfl hminus
    | minus => exact ⟨rfl, rfl⟩

theorem takeExponent_iff (kept : Bool) {exponent : Option Int} :
    (∃ r, takeExponent kept text = .ok (exponent, r) ∧ r.rest = rest) ↔
      ExponentSpelled exponent text rest := by
  constructor
  · intro h
    obtain ⟨r, hread, rfl⟩ := h
    cases text with
    | nil =>
      cases hread
      exact .none (by nofun) (by nofun)
    | cons c text =>
      have hsign := takeSign_spelled text
      rw [takeExponent] at hread
      split at hread
      next he =>
        generalize takeSign text = sign at hread hsign
        obtain ⟨negative, signed⟩ := sign
        simp only at hread
        split at hread
        next => cases hread
        next hdigits =>
          cases hread
          exact .power he hsign (digitsSpelled_iff.mpr ⟨hdigits, rfl, rfl⟩)
      next he =>
        cases hread
        rw [not_or] at he
        exact .none (fun h => he.1 (Option.some.inj h)) (fun h => he.2 (Option.some.inj h))
  · intro h
    cases h with
    | none he hE =>
      cases text with
      | nil => exact ⟨_, rfl, rfl⟩
      | cons c text =>
        have hc : ¬ (c = 'e' ∨ c = 'E') :=
          not_or.mpr ⟨fun h => he (congrArg some h), fun h => hE (congrArg some h)⟩
        exact ⟨_, by rw [takeExponent, if_neg hc], rfl⟩
    | power he hsign hspelled =>
      obtain ⟨rfl, rfl⟩ := hsign.unique (takeSign_spelled _)
      obtain ⟨hnil, rfl, rfl⟩ := digitsSpelled_iff.mp hspelled
      exact ⟨_, by rw [takeExponent, if_pos he]; exact if_neg hnil, rfl⟩

theorem reads_read_iff (kept : Bool) {n : Numeral} :
    Reads (read kept negative) text n rest ↔ NumeralSpelled negative n text rest := by
  constructor
  · intro h
    obtain ⟨hlt, hread⟩ := h
    obtain ⟨whole, hwhole, hread⟩ := bind_eq_ok.mp hread
    obtain ⟨⟨fraction, r⟩, hfraction, hread⟩ := bind_eq_ok.mp hread
    obtain ⟨⟨exponent, s⟩, hexponent, hread⟩ := bind_eq_ok.mp hread
    cases hread
    exact .mk ((reads_takeWhole_iff kept).mp (reads_of_eq_ok hwhole))
      ((takeFraction_iff kept).mp ⟨r, hfraction, rfl⟩)
      ((takeExponent_iff kept).mp ⟨s, hexponent, rfl⟩)
  · intro h
    obtain ⟨hwhole, hfraction, hexponent⟩ := h
    obtain ⟨hlt, hwhole'⟩ := (reads_takeWhole_iff kept).mpr hwhole
    obtain ⟨r, hfraction', rfl⟩ := (takeFraction_iff kept).mpr hfraction
    obtain ⟨s, hexponent', rfl⟩ := (takeExponent_iff kept).mpr hexponent
    refine ⟨Nat.lt_of_le_of_lt (r.trans s).notLonger hlt, ?_⟩
    refine bind_eq_ok.mpr ⟨_, hwhole', ?_⟩
    refine bind_eq_ok.mpr ⟨_, hfraction', ?_⟩
    exact bind_eq_ok.mpr ⟨_, hexponent', rfl⟩

end Numeral

/-- A number that some integer or double is read for. -/
inductive NumberSpelled : Spelling Number
  | natural {n : Numeral} {v : Number} {text rest : List Char} :
    Numeral.NumeralSpelled false n text rest → n.value? = some v → NumberSpelled v text rest
  | negative {n : Numeral} {v : Number} {text rest : List Char} :
    Numeral.NumeralSpelled true n text rest → n.value? = some v →
      NumberSpelled v ('-' :: text) rest

theorem reads_number_iff {negative : Bool} {v : Number} :
    Reads (Json.number negative) text v rest ↔
      ∃ n, Numeral.NumeralSpelled negative n text rest ∧ n.value? = some v := by
  constructor
  · intro h
    obtain ⟨hlt, hread⟩ := h
    rw [Json.number] at hread
    split at hread
    next => cases hread
    next p hp =>
      split at hread
      next v' hvalue =>
        cases hread
        exact ⟨p.value, (Numeral.reads_read_iff true).mp (reads_of_eq_ok hp), hvalue⟩
      next => cases hread
  · intro h
    obtain ⟨n, hspelled, hvalue⟩ := h
    obtain ⟨hlt, hread⟩ := (Numeral.reads_read_iff true).mpr hspelled
    refine ⟨hlt, ?_⟩
    rw [Json.number, hread]
    simp only [hvalue]
    rfl

/-! ## Printed integers -/

/-- What stands behind a number and does not belong to it. -/
def EndsNumber (rest : List Char) : Prop :=
  ∀ c tail, rest = c :: tail → c.isDigit = false ∧ c ≠ '.' ∧ c ≠ 'e' ∧ c ≠ 'E'

namespace Numeral

theorem digits_eq_nil (hrest : EndsNumber rest) : digits rest = [] := by
  cases rest with
  | nil => rfl
  | cons c tail =>
    rw [digits, List.takeWhile_cons, (hrest c tail rfl).1]
    rfl

theorem wholeSpelled_toDigits (n : Nat) (hrest : EndsNumber rest) :
    WholeSpelled (Nat.toDigits 10 n) (Nat.toDigits 10 n ++ rest) rest := by
  rcases Nat.eq_zero_or_pos n with rfl | hpos
  · exact .zero (digits_eq_nil hrest)
  · have hall := Symbol.Group.all_isDigit_toDigits n
    have hhead := Symbol.Group.head?_toDigits_ne_zero hpos
    have hnil : Nat.toDigits 10 n ≠ [] := Nat.toDigits_ne_nil
    generalize Nat.toDigits 10 n = ds at *
    cases ds with
    | nil => exact absurd rfl hnil
    | cons c ds =>
      have hzero : c ≠ '0' := fun h => hhead (congrArg some h)
      exact .positive hzero (.mk hnil hall (digits_eq_nil hrest))

theorem numeralSpelled_toDigits (negative : Bool) (n : Nat) (hrest : EndsNumber rest) :
    NumeralSpelled negative ⟨negative, Nat.toDigits 10 n, [], none⟩
      (Nat.toDigits 10 n ++ rest) rest := by
  refine .mk (wholeSpelled_toDigits n hrest) (.none ?_) (.none ?_ ?_)
  all_goals
    intro hhead
    obtain ⟨tail, rfl⟩ := List.head?_eq_some_iff.mp hhead
    obtain ⟨-, hpoint, he, hE⟩ := hrest _ _ rfl
    contradiction

theorem value?_natural (hn : n < limit) :
    value? ⟨false, Nat.toDigits 10 n, [], none⟩ = some (.integer n) := by
  simp [value?, integer?, Nat.ofDigitChars_ten_toDigits, hn]

theorem value?_negative (hpos : 0 < n) (hn : n ≤ limit / 2) :
    value? ⟨true, Nat.toDigits 10 n, [], none⟩ = some (.integer (-n)) := by
  simp [value?, integer?, Nat.ofDigitChars_ten_toDigits, hpos, hn]

end Numeral

theorem toList_repr (n : Nat) : n.repr.toList = Nat.toDigits 10 n := String.toList_ofList

theorem numberSpelled_numberForm {i : Int} (hlow : -(Numeral.limit / 2 : Nat) ≤ i)
    (hhigh : i < Numeral.limit) (hrest : EndsNumber rest) :
    NumberSpelled (.integer i) (numberForm (.integer i) ++ rest) rest := by
  cases i with
  | ofNat n =>
    show NumberSpelled _ (n.repr.toList ++ rest) rest
    rw [toList_repr]
    have hn : n < Numeral.limit := Int.ofNat_lt.mp hhigh
    exact .natural (Numeral.numeralSpelled_toDigits false n hrest) (Numeral.value?_natural hn)
  | negSucc n =>
    show NumberSpelled _ (("-" ++ (n + 1).repr).toList ++ rest) rest
    rw [String.toList_append, toList_repr]
    exact .negative (Numeral.numeralSpelled_toDigits true (n + 1) hrest)
      (Numeral.value?_negative (Nat.succ_pos n) (by omega))

end SymbolCoverage.Json
