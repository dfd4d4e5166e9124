import Mathlib.Tactic.IntervalCases
import SymbolCoverage.Proofs.Results
import SymbolCoverage.Symbol.Encode

/-!
The spellings of characters inside a group.  Every character up to the last code
point that has a code is spelled, and expanding its spelling gives the character
back, whatever text follows.  Hence escaping a text and expanding the result gives
the text, which is `expand_escape`.
-/

namespace SymbolCoverage.Text

theorem hexDigit?_digitChar {d : Nat} (hd : d < 16) : hexDigit? d.digitChar = some d := by
  interval_cases d <;> decide

theorem digitChar_toNat_sub {c : Char} (hc : c.isDigit = true) :
    c.toNat - 48 < 10 ∧ (c.toNat - 48).digitChar = c := by
  have hrange : 48 ≤ c.toNat ∧ c.toNat ≤ 57 := Char.isDigit_iff_toNat.mp hc
  have hlt : c.toNat - 48 < 10 := by omega
  refine ⟨hlt, ?_⟩
  rw [← Char.toNat_inj, Nat.toNat_digitChar_of_lt_ten hlt]
  omega

theorem isLowerHex_digitChar {d : Nat} (hd : d < 16) : isLowerHex d.digitChar = true := by
  interval_cases d <;> decide

theorem hexSpelling_of_lt {n : Nat} (hn : n < 16) : hexSpelling n = [n.digitChar] :=
  Nat.toDigits_of_lt_base hn

theorem hexSpelling_digit {n d : Nat} (hn : 0 < n) (hd : d < 16) :
    hexSpelling (16 * n + d) = hexSpelling n ++ [d.digitChar] := by
  rw [hexSpelling, ← Nat.toDigits_append_toDigits (by decide) hn hd,
    Nat.toDigits_of_lt_base hd, hexSpelling]

theorem hexNumber?_snoc (ds : List Char) (c : Char) :
    hexNumber? (ds ++ [c]) = (hexNumber? ds).bind fun n => (hexDigit? c).map (16 * n + ·) := by
  simp only [hexNumber?, List.foldlM_append, List.foldlM_cons, List.foldlM_nil, bind_pure]
  rfl

/-- The digits of a number spell that number. -/
theorem hexNumber?_hexSpelling (n : Nat) : hexNumber? (hexSpelling n) = some n := by
  induction n using Nat.base_induction 16 (by decide) with
  | single d hd =>
    rw [hexSpelling_of_lt hd, ← List.nil_append [d.digitChar], hexNumber?_snoc,
      hexDigit?_digitChar hd]
    simp [hexNumber?]
  | digit n d hd hn ih =>
    rw [hexSpelling_digit hn hd, hexNumber?_snoc, ih, hexDigit?_digitChar hd]
    rfl

/-- Zeros in front do not count. -/
theorem hexNumber?_replicate_zero (k : Nat) (digits : List Char) :
    hexNumber? (List.replicate k '0' ++ digits) = hexNumber? digits := by
  induction k with
  | zero => rfl
  | succ k ih => exact ih

theorem all_isLowerHex_hexSpelling (n : Nat) : (hexSpelling n).all isLowerHex = true := by
  induction n using Nat.base_induction 16 (by decide) with
  | single d hd =>
    rw [hexSpelling_of_lt hd]
    simp [isLowerHex_digitChar hd]
  | digit n d hd hn ih =>
    rw [hexSpelling_digit hn hd, List.all_append, ih]
    simp [isLowerHex_digitChar hd]

theorem scalar?_toNat (c : Char) : scalar? c.toNat = some c := by
  have hc : c.toNat.isValidChar := c.valid
  rw [scalar?, if_pos hc, Char.ofNat_toNat]

end SymbolCoverage.Text

namespace SymbolCoverage.Symbol.Escape

/-! ## Codes -/

theorem mem_of_punctuationName? {c : Char} {name : String} (h : punctuationName? c = some name) :
    (name, c) ∈ punctuationCodes := by
  obtain ⟨⟨name', c'⟩, hfind, rfl⟩ := Option.map_eq_some_iff.mp h
  have hc : c' = c := by simpa using List.find?_some hfind
  exact hc ▸ List.mem_of_find?_eq_some hfind

/-- A named code means the character that it is the name of. -/
theorem ofCode?_punctuation {c : Char} {name : String} (h : punctuationName? c = some name) :
    ofCode? name.toList = some (.punctuation c) ∧ '$' ∉ name.toList ∧ c.toNat ≤ codePointLimit := by
  have hmem := mem_of_punctuationName? h
  simp only [punctuationCodes, List.mem_cons, List.not_mem_nil, or_false, Prod.mk.injEq] at hmem
  rcases hmem with ⟨rfl, rfl⟩ | ⟨rfl, rfl⟩ | ⟨rfl, rfl⟩ | ⟨rfl, rfl⟩ | ⟨rfl, rfl⟩ | ⟨rfl, rfl⟩ |
    ⟨rfl, rfl⟩ | ⟨rfl, rfl⟩ <;> decide

/-- No named code starts with the letter of the numeric ones. -/
theorem lookup_numeric (digits : List Char) :
    punctuationCodes.lookup (String.ofList ('u' :: digits)) = none := by
  rw [List.lookup_eq_none_iff]
  intro entry hentry
  rw [bne_iff_ne]
  intro heq
  have hhead : entry.1.toList.head? = some 'u' := by rw [← heq, String.toList_ofList]; rfl
  simp only [punctuationCodes, List.mem_cons, List.not_mem_nil, or_false] at hentry
  rcases hentry with rfl | rfl | rfl | rfl | rfl | rfl | rfl | rfl <;>
    exact absurd hhead (by decide)

theorem length_hexSpelling_le {n : Nat} (hn : n ≤ codePointLimit) :
    (Text.hexSpelling n).length ≤ 4 := by
  rw [Text.hexSpelling, Nat.length_toDigits_le_iff (by decide) (by decide)]
  simp only [codePointLimit] at hn
  omega

theorem ofCode?_codePoint {c : Char} (hc : c.toNat ≤ codePointLimit) :
    ofCode? ('u' :: Text.hexSpelling c.toNat) = some (.codePoint c) := by
  have hpayload : payload? (Text.hexSpelling c.toNat) = some c := by
    rw [payload?, if_pos ⟨Nat.toDigits_ne_nil, length_hexSpelling_le hc,
      Text.all_isLowerHex_hexSpelling c.toNat⟩, Text.hexNumber?_hexSpelling]
    exact Text.scalar?_toNat c
  simp only [ofCode?, lookup_numeric, hpayload, Option.map_some]

theorem dollar_not_mem_hexSpelling (n : Nat) : '$' ∉ Text.hexSpelling n := by
  intro hmem
  have hall := List.all_eq_true.mp (Text.all_isLowerHex_hexSpelling n) '$' hmem
  exact absurd hall (by decide)

/-! ## Expanding one spelling -/

theorem bne_dollar {text : List Char} (h : '$' ∉ text) : ∀ c ∈ text, (c != '$') = true := by
  intro c hc
  rw [bne_iff_ne]
  exact fun heq => h (heq ▸ hc)

/-- The code before the first dollar is split off if it has a meaning. -/
theorem splitCode?_of_dollar {code : List Char} (hdollar : '$' ∉ code) (rest : List Char) :
    splitCode? (code ++ '$' :: rest) = (ofCode? code).map (·, rest) := by
  have hne := bne_dollar hdollar
  have htake : (code ++ '$' :: rest).takeWhile (· != '$') = code := by
    rw [List.takeWhile_append_of_pos hne]
    simp
  have hdrop : (code ++ '$' :: rest).dropWhile (· != '$') = '$' :: rest := by
    rw [List.dropWhile_append_of_pos hne]
    simp
  simp only [splitCode?, hdrop, htake]

theorem splitCode?_of_no_dollar {text : List Char} (h : '$' ∉ text) : splitCode? text = none := by
  have hdrop : text.dropWhile (· != '$') = [] := by
    rw [← List.append_nil text, List.dropWhile_append_of_pos (bne_dollar h)]
    rfl
  rw [splitCode?, hdrop]

theorem splitCode?_append {code rest : List Char} {e : Escape} (hcode : ofCode? code = some e)
    (hdollar : '$' ∉ code) : splitCode? (code ++ '$' :: rest) = some (e, rest) := by
  rw [splitCode?_of_dollar hdollar, hcode, Option.map_some]

/-- What is split off is a code, and the dollar behind it. -/
theorem splitCode?_eq_some {text rest : List Char} {e : Escape}
    (h : splitCode? text = some (e, rest)) :
    ∃ code, ofCode? code = some e ∧ text = code ++ '$' :: rest := by
  unfold splitCode? at h
  split at h
  next => cases h
  next d rest' hdrop =>
    obtain ⟨e', hcode, heq⟩ := Option.map_eq_some_iff.mp h
    cases heq
    have hd := List.head?_dropWhile_not (· != '$') text
    rw [hdrop] at hd
    have hdollar : d = '$' := by simpa using hd
    refine ⟨_, hcode, ?_⟩
    subst hdollar
    rw [← hdrop, List.takeWhile_append_dropWhile]

/-- A character that is no dollar, and is not the first of two dots, stands for itself. -/
theorem expand_of_not_dots {c : Char} {rest : List Char}
    (hdots : ∀ tail, c = '.' → rest = '.' :: tail → False) (hdollar : c ≠ '$') :
    expand (c :: rest) = c :: expand rest := by
  rw [expand, if_neg hdollar]
  exact hdots

theorem expand_plain {c : Char} (hdollar : c ≠ '$') (hdot : c ≠ '.') (rest : List Char) :
    expand (c :: rest) = c :: expand rest :=
  expand_of_not_dots (fun _ hc _ => hdot hc) hdollar

/-- What is split off behind a dollar is replaced by its meaning. -/
theorem expand_of_splitCode? {rest tail : List Char} {e : Escape}
    (h : splitCode? rest = some (e, tail)) : expand ('$' :: rest) = e.char :: expand tail := by
  rw [expand]
  · simp only [if_true]
    split
    · rename_i e' tail' h'
      rw [h] at h'
      cases h'
      rfl
    · rename_i h'
      rw [h] at h'
      cases h'
  · exact fun _ hc _ => absurd hc (by decide)

/-- A dollar behind which nothing is split off stands for itself. -/
theorem expand_of_splitCode?_none {rest : List Char} (h : splitCode? rest = none) :
    expand ('$' :: rest) = '$' :: expand rest := by
  rw [expand]
  · simp only [if_true]
    split
    · rename_i e' tail' h'
      rw [h] at h'
      cases h'
    · rfl
  · exact fun _ hc _ => absurd hc (by decide)

theorem expand_code {code : List Char} {e : Escape} (hcode : ofCode? code = some e)
    (hdollar : '$' ∉ code) (rest : List Char) :
    expand ('$' :: code ++ ['$'] ++ rest) = e.char :: expand rest := by
  have htext : '$' :: code ++ ['$'] ++ rest = '$' :: (code ++ '$' :: rest) := by simp
  rw [htext, expand_of_splitCode? (splitCode?_append hcode hdollar)]

theorem isPlain_ne {c : Char} (h : isPlain c = true) : c ≠ '$' ∧ c ≠ '.' := by
  constructor <;> rintro rfl <;> exact absurd h (by decide)

/-- The spelling of a character expands to that character. -/
theorem expand_spelling {c : Char} {cs : List Char} (h : spelling? c = some cs)
    (rest : List Char) : expand (cs ++ rest) = c :: expand rest := by
  unfold spelling? at h
  split at h
  · rename_i hplain
    cases h
    exact expand_plain (isPlain_ne hplain).1 (isPlain_ne hplain).2 rest
  · split at h
    · rename_i name hname
      cases h
      obtain ⟨hcode, hdollar, -⟩ := ofCode?_punctuation hname
      exact expand_code hcode hdollar rest
    · split at h
      · rename_i hlimit
        cases h
        have hdollar : '$' ∉ 'u' :: Text.hexSpelling c.toNat := by
          rw [List.mem_cons, not_or]
          exact ⟨by decide, dollar_not_mem_hexSpelling c.toNat⟩
        exact expand_code (ofCode?_codePoint hlimit) hdollar rest
      · cases h

/-- Expanding undoes escaping. -/
theorem expand_escape {cs text : List Char} (h : escape cs = .ok text) : expand text = cs := by
  induction cs using escape.induct generalizing text with
  | case1 =>
    cases h
    exact expand.eq_1
  | case2 rest ih =>
    rw [escape] at h
    obtain ⟨t, ht, rfl⟩ := map_eq_ok.mp h
    rw [List.cons_append, List.cons_append, List.nil_append, expand, ih ht]
  | case3 c rest hpair hnone =>
    rw [escape, hnone] at h
    · cases h
    · exact hpair
  | case4 c rest hpair cs hcs ih =>
    rw [escape, hcs] at h
    · obtain ⟨t, ht, rfl⟩ := map_eq_ok.mp h
      rw [expand_spelling hcs, ih ht]
    · exact hpair

theorem escape_ne_nil {cs text : List Char} (hcs : cs ≠ []) (h : escape cs = .ok text) :
    text ≠ [] := by
  rintro rfl
  have hexpand := expand_escape h
  rw [expand] at hexpand
  exact hcs hexpand.symm

/-! ## Which texts are spelled -/

theorem le_codePointLimit_of_isPlain {c : Char} (h : isPlain c = true) :
    c.toNat ≤ codePointLimit := by
  simp only [isPlain, Bool.or_eq_true, beq_iff_eq] at h
  rcases h with (h | rfl) | rfl
  · have hranges : (decide ('A'.val ≤ c.val ∧ c.val ≤ 'Z'.val) ||
        decide ('a'.val ≤ c.val) && decide (c.val ≤ 'z'.val) ||
        decide ('0'.val ≤ c.val) && decide (c.val ≤ '9'.val)) = true := h
    simp only [Bool.or_eq_true, Bool.and_eq_true, decide_eq_true_eq,
      UInt32.le_iff_toNat_le] at hranges
    have hval : c.toNat = c.val.toNat := rfl
    have hZ : 'Z'.val.toNat = 90 := rfl
    have hz : 'z'.val.toNat = 122 := rfl
    have h9 : '9'.val.toNat = 57 := rfl
    simp only [codePointLimit]
    omega
  · decide
  · decide

theorem spelling?_eq_none_iff {c : Char} : spelling? c = none ↔ codePointLimit < c.toNat := by
  unfold spelling?
  split
  · rename_i hplain
    have := le_codePointLimit_of_isPlain hplain
    simp only [reduceCtorEq, false_iff]
    omega
  · split
    · rename_i name hname
      have := (ofCode?_punctuation hname).2.2
      simp only [reduceCtorEq, false_iff]
      omega
    · split
      · simp only [reduceCtorEq, false_iff]
        omega
      · simp only [true_iff]
        omega

/-- A text is escaped exactly when all of its characters have a spelling. -/
theorem escape_isOk_iff (cs : List Char) :
    (∃ text, escape cs = .ok text) ↔ ∀ c ∈ cs, c.toNat ≤ codePointLimit := by
  induction cs using escape.induct with
  | case1 => simp [escape]
  | case2 rest ih =>
    rw [escape]
    have hcolon : ':'.toNat ≤ codePointLimit := by decide
    simp only [map_eq_ok, List.forall_mem_cons, hcolon, true_and, ← ih]
    constructor
    · intro h
      obtain ⟨_, t, ht, -⟩ := h
      exact ⟨t, ht⟩
    · intro h
      obtain ⟨t, ht⟩ := h
      exact ⟨_, t, ht, rfl⟩
  | case3 c rest hpair hnone =>
    rw [escape, hnone]
    · have hlimit := spelling?_eq_none_iff.mp hnone
      simp only [reduceCtorEq, exists_false, List.forall_mem_cons, false_iff, not_and]
      omega
    · exact hpair
  | case4 c rest hpair cs hcs ih =>
    rw [escape, hcs]
    · have hlimit : c.toNat ≤ codePointLimit := by
        by_contra hgt
        rw [spelling?_eq_none_iff.mpr (by omega)] at hcs
        cases hcs
      simp only [map_eq_ok, List.forall_mem_cons, hlimit, true_and, ← ih]
      constructor
      · intro h
        obtain ⟨_, t, ht, -⟩ := h
        exact ⟨t, ht⟩
      · intro h
        obtain ⟨t, ht⟩ := h
        exact ⟨_, t, ht, rfl⟩
    · exact hpair

end SymbolCoverage.Symbol.Escape
