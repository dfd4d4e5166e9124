import SymbolCoverage.Proofs.Symbol.LineEnds
import SymbolCoverage.Proofs.Symbol.Tokens

/-!
Texts without escapes.  An escape is two dots, or a recognised code between dollars.  Expanding
copies the characters before the first escape one by one, so it comes to this escape wherever it
stands, also behind a dollar that opens no code.  There it writes colons in the place of dots, or
one character in the place of three or more.  Hence the texts without an escape are exactly the
ones that stand for themselves.
-/

namespace SymbolCoverage.Symbol

namespace Escape

/-! ## Recognised codes -/

/-- The codes with a meaning: the names of punctuation characters, and `u` with one to four
lower-case hexadecimal digits that spell the code point of a character.  There may be zeros in
front. -/
inductive Recognised : List Char → Prop
  | name {name : String} (h : name ∈ Token.names) : Recognised name.toList
  | codePoint (zeros : Nat) (c : Char)
    (h : (List.replicate zeros '0' ++ Nat.toDigits 16 c.toNat).length ≤ 4) :
    Recognised ('u' :: (List.replicate zeros '0' ++ Nat.toDigits 16 c.toNat))

theorem payload?_zeros {zeros : Nat} {c : Char}
    (h : (List.replicate zeros '0' ++ Text.hexSpelling c.toNat).length ≤ 4) :
    payload? (List.replicate zeros '0' ++ Text.hexSpelling c.toNat) = some c := by
  have hnil : List.replicate zeros '0' ++ Text.hexSpelling c.toNat ≠ [] :=
    List.append_ne_nil_of_right_ne_nil _ Nat.toDigits_ne_nil
  have hzeros : (List.replicate zeros '0').all Text.isLowerHex = true := by
    rw [List.all_eq_true]
    intro digit hdigit
    rw [List.eq_of_mem_replicate hdigit]
    decide
  have hlower : (List.replicate zeros '0' ++ Text.hexSpelling c.toNat).all Text.isLowerHex =
      true := by
    rw [List.all_append, hzeros, Text.all_isLowerHex_hexSpelling, Bool.and_true]
  rw [payload?, if_pos ⟨hnil, h, hlower⟩, Text.hexNumber?_replicate_zero,
    Text.hexNumber?_hexSpelling]
  exact Text.scalar?_toNat c

/-- A number that is read off digits is spelled by them, zero by at least one digit. -/
theorem exists_zeros_of_payload? {digits : List Char} {c : Char} (h : payload? digits = some c) :
    ∃ zeros, digits = List.replicate zeros '0' ++ Text.hexSpelling c.toNat := by
  obtain ⟨-, hlower, hnumber⟩ := payload?_eq_some h
  obtain ⟨k, hk⟩ := Text.exists_zeros_of_hexNumber? hlower hnumber
  by_cases hzero : c.toNat = 0
  · rw [if_pos hzero, List.append_nil] at hk
    have hpos : k ≠ 0 := by
      rintro rfl
      rw [hk] at h
      cases h
    obtain ⟨zeros, rfl⟩ := Nat.exists_eq_succ_of_ne_zero hpos
    refine ⟨zeros, ?_⟩
    rw [hk, hzero, List.replicate_succ']
    rfl
  · rw [if_neg hzero] at hk
    exact ⟨k, hk⟩

theorem mem_names_of_lookup {name : String} {c : Char}
    (h : punctuationCodes.lookup name = some c) : name ∈ Token.names := by
  obtain ⟨before, behind, hcodes, -⟩ := List.lookup_eq_some_iff.mp h
  have hnames : Token.names = punctuationCodes.map (·.1) := rfl
  rw [hnames, hcodes, List.map_append, List.map_cons]
  exact List.mem_append_right _ List.mem_cons_self

theorem recognised_iff {code : List Char} : Recognised code ↔ ∃ e, ofCode? code = some e := by
  constructor
  · intro h
    cases h with
    | name h =>
      obtain ⟨c, hlookup, -⟩ := Token.punctuationName?_of_names h
      exact ⟨.punctuation c, by simp only [ofCode?, String.ofList_toList, hlookup]⟩
    | codePoint zeros c h =>
      have hpayload := payload?_zeros h
      rw [Text.hexSpelling] at hpayload
      exact ⟨.codePoint c, by simp only [ofCode?, lookup_numeric, hpayload, Option.map_some]⟩
  · intro h
    obtain ⟨e, he⟩ := h
    unfold ofCode? at he
    split at he
    next c hlookup =>
      rw [← String.toList_ofList (l := code)]
      exact .name (mem_names_of_lookup hlookup)
    next =>
      split at he
      next digits =>
        obtain ⟨c, hpayload, -⟩ := Option.map_eq_some_iff.mp he
        obtain ⟨hlength, -⟩ := payload?_eq_some hpayload
        obtain ⟨zeros, rfl⟩ := exists_zeros_of_payload? hpayload
        exact .codePoint zeros c hlength
      next => cases he

theorem Recognised.dollar_not_mem {code : List Char} (h : Recognised code) : '$' ∉ code := by
  cases h with
  | name h =>
    simp only [Token.names, List.mem_cons, List.not_mem_nil, or_false] at h
    rcases h with rfl | rfl | rfl | rfl | rfl | rfl | rfl | rfl <;> decide
  | codePoint zeros c h =>
    have hzeros : '$' ∉ List.replicate zeros '0' :=
      fun hmem => absurd (List.eq_of_mem_replicate hmem) (by decide)
    have hdigits : '$' ∉ Nat.toDigits 16 c.toNat := dollar_not_mem_hexSpelling c.toNat
    rw [List.mem_cons, List.mem_append, not_or, not_or]
    exact ⟨by decide, hzeros, hdigits⟩

/-! ## Escapes in a text -/

/-- Somewhere in the text stand two dots, or a recognised code between dollars. -/
def HasEscape (text : List Char) : Prop :=
  ['.', '.'] <:+: text ∨ ∃ code, '$' ∉ code ∧ Recognised code ∧ Occurs code text

theorem HasEscape.cons {text : List Char} (h : HasEscape text) (c : Char) :
    HasEscape (c :: text) := by
  have hpart : text <:+: c :: text := (List.suffix_cons c text).isInfix
  refine h.imp (·.trans hpart) fun hcode => ?_
  obtain ⟨code, hdollar, hrecognised, hoccurs⟩ := hcode
  exact ⟨code, hdollar, hrecognised, hoccurs.trans hpart⟩

theorem hasEscape_dots (rest : List Char) : HasEscape ('.' :: '.' :: rest) :=
  .inl (List.prefix_append ['.', '.'] rest).isInfix

theorem hasEscape_of_splitCode? {rest tail : List Char} {e : Escape}
    (h : splitCode? rest = some (e, tail)) : HasEscape ('$' :: rest) := by
  obtain ⟨code, hcode, rfl⟩ := splitCode?_eq_some h
  have hrecognised : Recognised code := recognised_iff.mpr ⟨e, hcode⟩
  exact .inr ⟨code, hrecognised.dollar_not_mem, hrecognised, [], tail, by simp⟩

theorem not_hasEscape_nil : ¬ HasEscape [] := by
  intro h
  rcases h with hdots | ⟨code, -, -, hoccurs⟩
  · exact absurd (List.infix_nil.mp hdots) (by decide)
  · exact absurd (List.infix_nil.mp hoccurs) (List.cons_ne_nil _ _)

/-- An escape stands in front, where the scan takes it, or in the rest. -/
theorem HasEscape.of_cons {c : Char} {rest : List Char} (h : HasEscape (c :: rest)) :
    (c = '.' ∧ ∃ tail, rest = '.' :: tail) ∨
      (c = '$' ∧ ∃ e tail, splitCode? rest = some (e, tail)) ∨ HasEscape rest := by
  cases h with
  | inl hdots =>
    rw [List.infix_cons_iff] at hdots
    cases hdots with
    | inl hfront =>
      obtain ⟨tail, htail⟩ := hfront
      cases htail
      exact .inl ⟨rfl, tail, rfl⟩
    | inr hrest => exact .inr (.inr (.inl hrest))
  | inr hcode =>
    obtain ⟨code, hdollar, hrecognised, hoccurs⟩ := hcode
    rw [Occurs, List.infix_cons_iff] at hoccurs
    cases hoccurs with
    | inl hfront =>
      obtain ⟨tail, htail⟩ := hfront
      obtain ⟨e, he⟩ := recognised_iff.mp hrecognised
      simp only [List.cons_append, List.cons.injEq, List.append_assoc] at htail
      obtain ⟨rfl, rfl⟩ := htail
      exact .inr (.inl ⟨rfl, e, tail, splitCode?_append he hdollar⟩)
    | inr hrest => exact .inr (.inr (.inr ⟨code, hdollar, hrecognised, hrest⟩))

/-! ## What expanding changes -/

theorem expand_of_not_hasEscape {text : List Char} (h : ¬ HasEscape text) : expand text = text := by
  induction text using expand.induct with
  | case1 => rw [expand]
  | case2 rest ih => exact absurd (hasEscape_dots rest) h
  | case3 rest e tail hsplit hlt hdots ih => exact absurd (hasEscape_of_splitCode? hsplit) h
  | case4 rest hsplit hdots ih =>
    rw [expand_of_splitCode?_none hsplit, ih fun hrest => h (hrest.cons '$')]
  | case5 c rest hdots hdollar ih =>
    rw [expand_of_not_dots hdots hdollar, ih fun hrest => h (hrest.cons c)]

theorem length_expand_le (text : List Char) : (expand text).length ≤ text.length := by
  induction text using expand.induct with
  | case1 => rw [expand]
  | case2 rest ih =>
    rw [expand]
    simp only [List.length_cons]
    omega
  | case3 rest e tail hsplit hlt hdots ih =>
    rw [expand_of_splitCode? hsplit]
    simp only [List.length_cons]
    omega
  | case4 rest hsplit hdots ih =>
    rw [expand_of_splitCode?_none hsplit]
    simp only [List.length_cons]
    omega
  | case5 c rest hdots hdollar ih =>
    rw [expand_of_not_dots hdots hdollar]
    simp only [List.length_cons]
    omega

theorem expand_ne_of_hasEscape {text : List Char} (h : HasEscape text) : expand text ≠ text := by
  induction text using expand.induct with
  | case1 => exact absurd h not_hasEscape_nil
  | case2 rest ih =>
    rw [expand]
    simp
  | case3 rest e tail hsplit hlt hdots ih =>
    have hshort := length_expand_le tail
    rw [expand_of_splitCode? hsplit]
    intro heq
    have hlength := congrArg List.length heq
    simp only [List.length_cons] at hlength
    omega
  | case4 rest hsplit hdots ih =>
    rw [expand_of_splitCode?_none hsplit, ne_eq, List.cons.injEq, not_and]
    rcases h.of_cons with ⟨hc, -⟩ | ⟨-, e, tail, hcode⟩ | hrest
    · exact absurd hc (by decide)
    · rw [hsplit] at hcode
      cases hcode
    · exact fun _ => ih hrest
  | case5 c rest hdots hdollar ih =>
    rw [expand_of_not_dots hdots hdollar, ne_eq, List.cons.injEq, not_and]
    rcases h.of_cons with ⟨hc, tail, hrest⟩ | ⟨hc, -⟩ | hrest
    · exact absurd hrest (hdots tail hc)
    · exact absurd hc hdollar
    · exact fun _ => ih hrest

end Escape

open Escape (HasEscape)

/-- Unescaping leaves a text as it is exactly if no escape stands in it.  Any other text is
changed, and gets no more characters. -/
theorem unescape_eq_self_iff (text : String) :
    (unescape text = text ↔ ¬ HasEscape text.toList) ∧
      (HasEscape text.toList →
        (unescape text).length ≤ text.length ∧ unescape text ≠ text) := by
  have hsame : unescape text = text ↔ Escape.expand text.toList = text.toList := by
    rw [unescape, ← String.toList_inj, String.toList_ofList]
  refine ⟨?_, fun h => ⟨?_, ?_⟩⟩
  · rw [hsame]
    exact ⟨fun heq h => Escape.expand_ne_of_hasEscape h heq, Escape.expand_of_not_hasEscape⟩
  · rw [unescape, String.length_ofList, ← String.length_toList]
    exact Escape.length_expand_le text.toList
  · rw [ne_eq, hsame]
    exact Escape.expand_ne_of_hasEscape h

/-- The dollar that ends `$x$`, which is no escape, opens one.  The code `ud800` spells no code
point of a character. -/
theorem unescape_eq_self_iff_sharedDollar :
    (HasEscape "$x$LT$".toList ∧
      (unescape "$x$LT$").length ≤ "$x$LT$".length ∧ unescape "$x$LT$" ≠ "$x$LT$") ∧
        unescape "$u$ud800$." = "$u$ud800$." ∧ ¬ HasEscape "$u$ud800$.".toList := by
  have hname : Escape.Recognised "LT".toList := .name (by decide)
  have hescape : HasEscape "$x$LT$".toList :=
    .inr ⟨"LT".toList, by decide, hname, "$x".toList, [], rfl⟩
  have hsame : unescape "$u$ud800$." = "$u$ud800$." := by decide +kernel
  exact ⟨⟨hescape, (unescape_eq_self_iff "$x$LT$").2 hescape⟩, hsame,
    (unescape_eq_self_iff "$u$ud800$.").1.mp hsame⟩

end SymbolCoverage.Symbol
