import SymbolCoverage.Proofs.Coverage.Buckets
import SymbolCoverage.Proofs.Symbol.Grammar
import SymbolCoverage.Proofs.Symbol.Spelling
import SymbolCoverage.Proofs.Text.Lines

/-!
Line ends in decoded names.  A character of an expanded text stands in the text itself, is a
colon, or is what a code in the text means.  Four codes mean a line end, and a name with
neither these codes nor a line end of its own has a key that is shown in one line.
-/

namespace SymbolCoverage.Text

/-- Lower-case digits are told apart by their values. -/
theorem digitChar_of_hexDigit? {c : Char} {d : Nat} (hlower : isLowerHex c = true)
    (h : hexDigit? c = some d) : d < 16 ∧ c = d.digitChar := by
  unfold hexDigit? at h
  split at h
  next hdigit =>
    cases h
    obtain ⟨hlt, hchar⟩ := digitChar_toNat_sub hdigit
    exact ⟨Nat.lt_trans hlt (by decide), hchar.symm⟩
  next hdigit =>
    simp only [isLowerHex, Bool.eq_false_iff.mpr hdigit, Bool.false_or, Bool.and_eq_true,
      decide_eq_true_eq] at hlower
    rw [if_pos hlower] at h
    cases h
    have hlow : 97 ≤ c.toNat := hlower.1
    have hhigh : c.toNat ≤ 102 := hlower.2
    have ha : 'a'.toNat = 97 := rfl
    rw [ha]
    refine ⟨by omega, ?_⟩
    rw [← Char.toNat_inj]
    generalize c.toNat = n at hlow hhigh
    interval_cases n <;> rfl

/-- Digits spell a number in one way, apart from the zeros in front. -/
theorem exists_zeros_of_hexNumber? {digits : List Char} {n : Nat}
    (hlower : ∀ c ∈ digits, isLowerHex c = true) (h : hexNumber? digits = some n) :
    ∃ k, digits = List.replicate k '0' ++ if n = 0 then [] else hexSpelling n := by
  induction digits using List.reverseRecOn generalizing n with
  | nil =>
    cases h
    exact ⟨0, rfl⟩
  | append_singleton digits c ih =>
    rw [hexNumber?_snoc] at h
    obtain ⟨m, hm, hc⟩ := Option.bind_eq_some_iff.mp h
    obtain ⟨d, hd, rfl⟩ := Option.map_eq_some_iff.mp hc
    rw [List.forall_mem_append, List.forall_mem_singleton] at hlower
    obtain ⟨hlt, rfl⟩ := digitChar_of_hexDigit? hlower.2 hd
    obtain ⟨k, rfl⟩ := ih hlower.1 hm
    by_cases hm0 : m = 0
    · subst hm0
      by_cases hd0 : d = 0
      · subst hd0
        exact ⟨k + 1, by simp [List.replicate_succ']⟩
      · refine ⟨k, ?_⟩
        simp [hd0, hexSpelling_of_lt hlt]
    · refine ⟨k, ?_⟩
      have hpos : 0 < m := Nat.pos_of_ne_zero hm0
      rw [if_neg hm0, if_neg (by omega), hexSpelling_digit hpos hlt, List.append_assoc]

end SymbolCoverage.Text

namespace SymbolCoverage.Symbol

namespace Escape

/-! ## Where characters come from -/

/-- The text has the code, between dollars, somewhere. -/
def Occurs (code text : List Char) : Prop := ('$' :: code ++ ['$']) <:+: text

/-- What a character of an expanded text may be. -/
inductive Origin (text : List Char) (c : Char) : Prop
  | plain : c ∈ text → Origin text c
  | colon : c = ':' → Origin text c
  | code {code : List Char} {e : Escape} :
    Occurs code text → ofCode? code = some e → e.char = c → Origin text c

theorem Origin.mono {text text' : List Char} {c : Char} (h : Origin text c)
    (hpart : text <:+: text') : Origin text' c := by
  cases h with
  | plain hmem => exact .plain (hpart.mem hmem)
  | colon hc => exact .colon hc
  | code hoccurs hcode hc => exact .code (hoccurs.trans hpart) hcode hc

theorem origin_of_mem_expand {text : List Char} {c : Char} (h : c ∈ expand text) :
    Origin text c := by
  induction text using expand.induct with
  | case1 => simp [expand] at h
  | case2 rest ih =>
    rw [expand, List.mem_cons, List.mem_cons] at h
    obtain hcolon | hcolon | hrest := h
    · exact .colon hcolon
    · exact .colon hcolon
    · exact (ih hrest).mono (List.suffix_append ['.', '.'] rest).isInfix
  | case3 rest e tail hsplit hlt hdots ih =>
    obtain ⟨code, hcode, rfl⟩ := splitCode?_eq_some hsplit
    rw [expand_of_splitCode? hsplit, List.mem_cons] at h
    cases h with
    | inl hc => exact .code ⟨[], tail, by simp⟩ hcode hc.symm
    | inr htail => exact (ih htail).mono ⟨'$' :: code ++ ['$'], [], by simp⟩
  | case4 rest hsplit hdots ih =>
    rw [expand_of_splitCode?_none hsplit, List.mem_cons] at h
    cases h with
    | inl hc => exact .plain (hc ▸ List.mem_cons_self)
    | inr hrest => exact (ih hrest).mono (List.suffix_cons '$' rest).isInfix
  | case5 c' rest hdots hdollar ih =>
    rw [expand_of_not_dots hdots hdollar, List.mem_cons] at h
    cases h with
    | inl hc => exact .plain (hc ▸ List.mem_cons_self)
    | inr hrest => exact (ih hrest).mono (List.suffix_cons c' rest).isInfix

/-! ## The codes of a line end -/

/-- The codes that mean a line end. -/
def lineEndCodes : List (List Char) :=
  [['u', 'a'], ['u', '0', 'a'], ['u', '0', '0', 'a'], ['u', '0', '0', '0', 'a']]

theorem payload?_eq_some {digits : List Char} {c : Char} (h : payload? digits = some c) :
    digits.length ≤ 4 ∧ (∀ d ∈ digits, Text.isLowerHex d = true) ∧
      Text.hexNumber? digits = some c.toNat := by
  unfold payload? at h
  split at h
  next hshape =>
    obtain ⟨-, hlength, hlower⟩ := hshape
    obtain ⟨n, hn, hc⟩ := Option.bind_eq_some_iff.mp h
    unfold Text.scalar? at hc
    split at hc
    next hvalid =>
      cases hc
      refine ⟨hlength, List.all_eq_true.mp hlower, ?_⟩
      rw [hn, Char.ofNat, dif_pos hvalid]
      rfl
    next => cases hc
  next => cases h

/-- Besides the last digit there is room for three zeros. -/
theorem mem_lineEndCodes_of_payload? {digits : List Char} (h : payload? digits = some '\n') :
    'u' :: digits ∈ lineEndCodes := by
  obtain ⟨hlength, hlower, hnumber⟩ := payload?_eq_some h
  obtain ⟨k, rfl⟩ := Text.exists_zeros_of_hexNumber? hlower hnumber
  have hspelling : (if '\n'.toNat = 0 then [] else Text.hexSpelling '\n'.toNat) = ['a'] := by
    decide
  rw [hspelling, List.length_append, List.length_replicate] at hlength
  have hk : k ≤ 3 := Nat.le_of_succ_le_succ hlength
  rw [hspelling]
  interval_cases k <;> decide

theorem lookup_ne_lineEnd (name : String) : punctuationCodes.lookup name ≠ some '\n' := by
  intro h
  obtain ⟨before, behind, hcodes, -⟩ := List.lookup_eq_some_iff.mp h
  have hmem : '\n' ∈ punctuationCodes.map (·.2) := by
    rw [hcodes, List.map_append, List.map_cons]
    exact List.mem_append_right _ List.mem_cons_self
  exact absurd hmem (by decide)

theorem ofCode?_lineEnd_iff {code : List Char} :
    (∃ e, ofCode? code = some e ∧ e.char = '\n') ↔ code ∈ lineEndCodes := by
  constructor
  · intro h
    obtain ⟨e, hcode, he⟩ := h
    unfold ofCode? at hcode
    split at hcode
    next c hlookup =>
      cases hcode
      have hc : c = '\n' := he
      exact absurd (hc ▸ hlookup) (lookup_ne_lineEnd _)
    next =>
      split at hcode
      next digits =>
        obtain ⟨c, hpayload, rfl⟩ := Option.map_eq_some_iff.mp hcode
        have hc : c = '\n' := he
        exact mem_lineEndCodes_of_payload? (hc ▸ hpayload)
      next => cases hcode
  · intro h
    simp only [lineEndCodes, List.mem_cons, List.not_mem_nil, or_false] at h
    rcases h with rfl | rfl | rfl | rfl <;> exact ⟨.codePoint '\n', by decide, rfl⟩

/-- The text has no line end, and no code of one. -/
structure FreeOfLineEnds (text : List Char) : Prop where
  plain : '\n' ∉ text
  coded : ∀ code ∈ lineEndCodes, ¬ Occurs code text

theorem FreeOfLineEnds.mono {text text' : List Char} (h : FreeOfLineEnds text')
    (hpart : text <:+: text') : FreeOfLineEnds text :=
  ⟨fun hmem => h.plain (hpart.mem hmem),
    fun code hcode hoccurs => h.coded code hcode (hoccurs.trans hpart)⟩

theorem FreeOfLineEnds.not_mem_expand {text : List Char} (h : FreeOfLineEnds text) :
    '\n' ∉ expand text := by
  intro hmem
  cases origin_of_mem_expand hmem with
  | plain hplain => exact h.plain hplain
  | colon hcolon => exact absurd hcolon (by decide)
  | code hoccurs hcode hchar =>
    exact h.coded _ (ofCode?_lineEnd_iff.mp ⟨_, hcode, hchar⟩) hoccurs

end Escape

open Escape (FreeOfLineEnds)

/-! ## Keys -/

theorem WrittenGroup.withoutUnderscore_isInfix (text : List Char) :
    withoutUnderscore text <:+: text := by
  unfold withoutUnderscore
  split
  next => exact (List.tail_suffix text).isInfix
  next => exact List.infix_rfl

theorem WrittenGroup.oneLine_segment {g : WrittenGroup} (h : FreeOfLineEnds g.text) :
    OneLine g.segment := by
  rw [segment, unescape, OneLine, String.toList_ofList, String.toList_ofList]
  exact (h.mono (withoutUnderscore_isInfix g.text)).not_mem_expand

theorem WrittenGroup.text_isInfix {gs : List WrittenGroup} {body : List Char} (h : Compose gs body)
    {g : WrittenGroup} (hg : g ∈ gs) : g.text <:+: body := by
  obtain ⟨-, closing, -, rfl⟩ := compose_iff.mp h
  have hchars : g.text <:+: g.chars := (List.suffix_append g.digits g.text).isInfix
  have hgroups : g.chars <:+: charsOf gs := by
    rw [charsOf, List.flatMap_def]
    exact List.infix_of_mem_flatten (List.mem_map_of_mem hg)
  exact (hchars.trans hgroups).trans (List.prefix_append _ closing).isInfix

/-- The key of a symbol is shown in one line if the symbol has no line end and no code of
one. -/
theorem oneLine_display {symbol : String} {entry : Entry} (h : entryOf symbol = .ok entry)
    (hfree : FreeOfLineEnds symbol.toList) : OneLine entry.1.display := by
  obtain ⟨decoded, hdecode, rfl⟩ := entryOf_eq_ok.mp h
  cases decoded with
  | verbatim raw =>
    obtain ⟨rfl, -⟩ := (decode_verbatim_iff symbol raw).mp hdecode
    exact hfree.plain
  | mangled path hash =>
    obtain ⟨body, hsymbol, hsegments⟩ := decode_eq_mangled_iff.mp hdecode
    obtain ⟨gs, hgs, hpath⟩ := segmentsOfBody_eq_ok_iff.mp hsegments
    have hbody : body <:+: symbol.toList := hsymbol ▸ List.infix_append opening body _
    have hjoined : OneLine ("::".intercalate path.segments) := by
      rw [oneLine_intercalate (by decide), hpath, List.forall_mem_map]
      intro g hg
      exact WrittenGroup.oneLine_segment
        (hfree.mono ((WrittenGroup.text_isInfix hgs hg).trans hbody))
    exact hjoined

end SymbolCoverage.Symbol
